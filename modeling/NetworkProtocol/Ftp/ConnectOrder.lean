import NetworkProtocol.Library.Runs
import Mathlib.Tactic.Cases

/-! The four threads of one transfer, from PASV or PORT to the data connection. The reply 150 is
sent by the server's main, and it is the server's data thread that listens. -/
namespace NetworkProtocol.Ftp.ConnectOrder

/-- The server's main: before the signal of NLST or RETR, after it, and after the send of 150. -/
inductive ServerMain where
  | selected
  | signalled
  | sent
  deriving DecidableEq, Repr

/-- The server's data thread: before the wait, in it, past it, and after listen. -/
inductive ServerData where
  | starting
  | waiting
  | woken
  | listening
  deriving DecidableEq, Repr

/-- The client's main: before it has received 150, after that, and after its signal. -/
inductive ClientMain where
  | receiving
  | received
  | signalled
  deriving DecidableEq, Repr

/-- The client's data thread: before the wait, in it, past it, and after a connect that the
server's data thread took or that was refused. -/
inductive ClientData where
  | starting
  | waiting
  | woken
  | connected
  | refused
  deriving DecidableEq, Repr

structure Transfer where
  serverMain : ServerMain := .selected
  serverData : ServerData := .starting
  clientMain : ClientMain := .receiving
  clientData : ClientData := .starting
  deriving DecidableEq, Repr

inductive Action where
  | serverSignal
  | serverSend
  | serverWait
  | serverListen
  | clientReceive
  | clientSignal
  | clientWait
  | clientConnect
  deriving DecidableEq, Repr

/-- pthread_cond_signal of the server, forgotten unless its data thread is in the wait. -/
def wakeServer (place : ServerData) : ServerData := if place = .waiting then .woken else place

def wakeClient (place : ClientData) : ClientData := if place = .waiting then .woken else place

def step (t : Transfer) : Action → Option Transfer
  | .serverSignal =>
    if t.serverMain = .selected then
      some { t with serverMain := .signalled, serverData := wakeServer t.serverData }
    else none
  | .serverSend =>
    if t.serverMain = .signalled then some { t with serverMain := .sent } else none
  | .serverWait =>
    if t.serverData = .starting then some { t with serverData := .waiting } else none
  | .serverListen =>
    if t.serverData = .woken then some { t with serverData := .listening } else none
  | .clientReceive =>
    if t.clientMain = .receiving ∧ t.serverMain = .sent then
      some { t with clientMain := .received }
    else none
  | .clientSignal =>
    if t.clientMain = .received then
      some { t with clientMain := .signalled, clientData := wakeClient t.clientData }
    else none
  | .clientWait =>
    if t.clientData = .starting then some { t with clientData := .waiting } else none
  | .clientConnect =>
    if t.clientData = .woken then
      some { t with clientData := if t.serverData = .listening then .connected else .refused }
    else none

def InOrder (t : Transfer) : Prop := t.clientData ≠ .refused

/-- 150 is sent only when the server's data thread has called listen. -/
def Announced (t : Transfer) : Action → Prop
  | .serverSend => t.serverData = .listening
  | _ => True

def IsClients (a : Action) : Prop :=
  a = .clientReceive ∨ a = .clientSignal ∨ a = .clientWait ∨ a = .clientConnect

structure Inv (t : Transfer) : Prop where
  inOrder : InOrder t
  listening : t.serverMain = .sent → t.serverData = .listening
  sent : t.clientMain ≠ .receiving → t.serverMain = .sent
  asleep : t.clientMain ≠ .signalled → t.clientData = .starting ∨ t.clientData = .waiting

section Steps
variable {t t' : Transfer} {a : Action}

private theorem keep (h : Inv t) (hstep : step t a = some t') (hok : Announced t a) : Inv t' := by
  obtain ⟨horder, hlistening, hsent, hasleep⟩ := h
  cases a with
  | serverSignal =>
    obtain ⟨hmain, rfl⟩ := Runs.guarded hstep
    refine ⟨horder, nofun, ?_, hasleep⟩
    intro hne
    exact absurd (hmain.symm.trans (hsent hne)) (by simp)
  | serverSend =>
    obtain ⟨hmain, rfl⟩ := Runs.guarded hstep
    exact ⟨horder, fun _ => hok, fun _ => rfl, hasleep⟩
  | serverWait =>
    obtain ⟨hdata, rfl⟩ := Runs.guarded hstep
    refine ⟨horder, ?_, hsent, hasleep⟩
    intro hmain
    exact absurd (hdata.symm.trans (hlistening hmain)) (by simp)
  | serverListen =>
    obtain ⟨-, rfl⟩ := Runs.guarded hstep
    exact ⟨horder, fun _ => rfl, hsent, hasleep⟩
  | clientReceive =>
    obtain ⟨⟨hmain, hs⟩, rfl⟩ := Runs.guarded hstep
    exact ⟨horder, hlistening, fun _ => hs, fun _ => hasleep (by simp [hmain])⟩
  | clientSignal =>
    obtain ⟨hmain, rfl⟩ := Runs.guarded hstep
    refine ⟨?_, hlistening, fun _ => hsent (by simp [hmain]), fun hne => absurd rfl hne⟩
    rcases hasleep (by simp [hmain]) with hdata | hdata <;> simp [InOrder, wakeClient, hdata]
  | clientWait =>
    obtain ⟨-, rfl⟩ := Runs.guarded hstep
    exact ⟨by simp [InOrder], hlistening, hsent, fun _ => .inr rfl⟩
  | clientConnect =>
    obtain ⟨hdata, rfl⟩ := Runs.guarded hstep
    have hmain : t.clientMain = .signalled := by
      by_contra hne
      simp [hdata] at hasleep
      exact hne hasleep
    have hlistens := hlistening (hsent (by simp [hmain]))
    refine ⟨by simp [InOrder, hlistens], hlistening, hsent, fun hne => absurd hmain hne⟩

private theorem early_reply_refused (h : Inv t) (hmain : t.serverMain = .signalled)
    (hearly : t.serverData ≠ .listening) :
    ∃ w t', (∀ a ∈ w, IsClients a) ∧ Runs.run step { t with serverMain := .sent } w = some t' ∧
      ¬ InOrder t' := by
  have hreceiving : t.clientMain = .receiving := by
    by_contra hne
    exact absurd (hmain.symm.trans (h.sent hne)) (by simp)
  rcases h.asleep (by simp [hreceiving]) with hdata | hdata
  · refine ⟨[.clientWait, .clientReceive, .clientSignal, .clientConnect],
      ⟨.sent, t.serverData, .signalled, .refused⟩, by simp [IsClients], ?_, by simp [InOrder]⟩
    simp [step, hdata, hreceiving, wakeClient, hearly]
  · refine ⟨[.clientReceive, .clientSignal, .clientConnect],
      ⟨.sent, t.serverData, .signalled, .refused⟩, by simp [IsClients], ?_, by simp [InOrder]⟩
    simp [step, hdata, hreceiving, wakeClient, hearly]

end Steps

/-- The order holds in every interleaving in which 150 follows the listen, and in any other the
client's own threads go on to a connect that is refused. -/
theorem in_order_iff (actions : List Action) :
    (Runs.Along step Announced {} actions → Runs.Visits step InOrder {} actions) ∧
    (Runs.Visits step (Runs.Henceforth step IsClients InOrder) {} actions ↔
      Runs.Along step Announced {} actions) := by
  suffices hiff : _ from ⟨fun h => (hiff.mpr h).now, hiff⟩
  apply Runs.visits_henceforth_iff_along (I := Inv)
  · exact fun t a t' => keep
  · exact fun t h => h.inOrder
  · rintro t a (rfl | rfl | rfl | rfl) <;> trivial
  · intro t a t' h hstep hbad
    cases a with
    | serverSend =>
      obtain ⟨hmain, rfl⟩ := Runs.guarded hstep
      exact early_reply_refused h hmain hbad
    | _ => exact absurd trivial hbad
  · exact ⟨by simp [InOrder], nofun, fun hne => absurd rfl hne, fun _ => .inl rfl⟩

/-- The server's data thread is woken and does not run until the client has connected. -/
theorem connect_before_listen :
    ¬ ∀ actions t, Runs.run step {} actions = some t → InOrder t := by
  intro h
  refine h [.serverWait, .clientWait, .serverSignal, .serverSend, .clientReceive, .clientSignal,
    .clientConnect] ⟨.sent, .woken, .signalled, .refused⟩ rfl rfl

end NetworkProtocol.Ftp.ConnectOrder
