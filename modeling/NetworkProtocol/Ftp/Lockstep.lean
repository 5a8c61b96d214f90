import Mathlib.Algebra.Order.Ring.Int
import Mathlib.Tactic.NormNum
import NetworkProtocol.Ftp.System

/-! The control connection stays in lockstep: the client consumes as many replies to a request
as the server sends, and callback always runs on the first reply to the latest request. -/
namespace NetworkProtocol.Ftp
open CString

namespace System
variable (s : System)

def owed : List Reply :=
  match s.serving with
  | .answering o _ => s.replies ++ [s.final o]
  | _ => s.replies

def repliesTo (n : Nat) : Nat := s.sent.countP (·.request = n)

end System

/-- The first reply to the latest request, whose command is the one in sentCommand. -/
def FirstReply (asked : List Message) (d : Dispatch) : Prop :=
  d.reply.request = d.asked ∧ d.reply.position = 0 ∧
    ∀ n, d.asked = n + 1 → ∃ req, asked[n]? = some req ∧ interpret req.command = d.sentCommand

structure Lockstep (s : System) : Prop where
  unread : s.client.phase = .prompting → s.owed = []
  counted : s.client.phase = .prompting → ∀ n, s.repliesTo n = s.consumed.count n
  replied : ∀ n started, s.replied[n]? = some started →
    s.repliesTo (n + 1) = if started then 2 else 1
  dispatched : ∀ d ∈ s.dispatched, FirstReply s.asked d

section Answers
variable {env : Environment} {req : Message} {s s' : Server} {o : Outcome}

/-- The server understands a request as the client did. -/
theorem interpret_request {userInput : CString} {command : Command}
    (h : request userInput = some (command, req)) : interpret req.command = command := by
  rw [request] at h
  split at h
  · cases h
  · split at h
    · cases h
    · obtain ⟨rfl, rfl⟩ := Prod.mk.inj (Option.some.inj h)
      exact interpret_toLowercase _

/-- A transfer that has started is seen to start. -/
theorem startsTransfer_of_starts (h : Starts env req s s') : startsTransfer env req s = true := by
  obtain ⟨auth, ⟨command, -⟩ | ⟨command, name, first, valid, -⟩⟩ := h
  · simp [startsTransfer, auth, command]
  · simp [startsTransfer, auth, command, first, valid]

/-- A refused one is not. -/
theorem not_startsTransfer_of_refused (h : Refused env req s) :
    startsTransfer env req s = false := by
  rw [startsTransfer]
  generalize hcommand : interpret req.command = command
  cases command with
  | nlst =>
    simp only [Refused, hcommand] at h
    simp [h]
  | retr =>
    simp only [Refused, hcommand] at h
    rcases h with h | h
    · simp [h]
    · simp [h]
  | _ => simp

/-- Nothing but a reply of class 1 takes the client to the join. -/
theorem callback_ne_joining {command : Command} {r : Message} (h : extractClass r.status ≠ 1) :
    callback command r ≠ .joining := by
  cases command <;> simp [callback, h]

private theorem extractClass_ne_one {status : Int} (h : 200 ≤ status) :
    extractClass status ≠ 1 := by
  rw [extractClass, Int.tdiv_eq_ediv_of_nonneg (by omega)]
  omega

/-- What execute returns is never of class 1. -/
theorem status_of_served (served : Served env req s o) : 200 ≤ o.status := by
  cases served with
  | refused fileName status text reason error => exact le_trans (by decide) error
  | _ => norm_num

/-- execute sends the 150 of a transfer and nothing else. -/
theorem sent_of_served (served : Served env req s o) :
    o.sent = if startsTransfer env req s then [newMessage 150 []] else [] := by
  cases served with
  | refused fileName status text reason error => simp [not_startsTransfer_of_refused reason]
  | transferred s' status text starts joined success => simp [startsTransfer_of_starts starts]
  | failed s' text starts joined => simp [startsTransfer_of_starts starts]
  | _ => simp [startsTransfer, *]

/-- A 150 leads the client to its join. -/
theorem callback_of_startsTransfer (h : startsTransfer env req s = true) :
    callback (interpret req.command) (newMessage 150 []) = .joining := by
  rw [startsTransfer] at h
  generalize interpret req.command = command at h
  cases command with
  | nlst => rfl
  | retr => rfl
  | _ => simp at h

end Answers

/-- What the client still has to consume before it prompts again. -/
def Awaits (n : Nat) (c : Client) (rs : List Reply) : Prop :=
  match c.phase with
  | .receiving =>
    (∃ r, rs = [⟨r, n, 0⟩] ∧ callback c.sentCommand r ≠ .joining) ∨
      ∃ r r', rs = [⟨r, n, 0⟩, ⟨r', n, 1⟩] ∧ callback c.sentCommand r = .joining
  | .joining | .finishing => ∃ r', rs = [⟨r', n, 1⟩]
  | .creating _ | .prompting => rs = []
  | .exited => True

/-- The client waits for what the server owes, and for what is lost with a server that is gone;
or its request is still on the way. -/
def Converses (s : System) : Prop :=
  (∃ lost, (s.serving ≠ .ended → lost = [] ∧ s.requests = []) ∧
    Awaits s.asked.length s.client (s.owed ++ lost)) ∨
  ∃ server req, s.serving = .receiving server ∧ s.requests = [req] ∧ s.replies = [] ∧
    s.client.phase = .receiving

def Aligned (s : System) : Prop :=
  s.serving ≠ .ended → ∃ before, s.asked = before ++ s.requests ∧ before.length = s.served

def Recorded (s : System) : Prop :=
  ∀ before req, s.asked = before ++ [req] → interpret req.command = s.client.sentCommand

def Balanced (s : System) : Prop :=
  ∀ n, s.repliesTo n = s.consumed.count n + s.replies.countP (·.request = n)

structure Numbered (s : System) : Prop where
  bound : ∀ r ∈ s.sent, r.request ≤ s.served
  account : match s.serving with
    | .receiving _ => s.replied.length = s.served
    | .answering o started => s.replied.length + 1 = s.served ∧
      o.sent.length = (if started then 1 else 0) ∧ s.repliesTo s.served = o.sent.length
    | .ended => s.replied.length ≤ s.served
  replied : ∀ n started, s.replied[n]? = some started →
    s.repliesTo (n + 1) = if started then 2 else 1

section Conversation
variable {s s' : System} {a : Action}

private theorem awaits_nil {n : Nat} {c : Client}
    (h : c.phase ≠ .receiving ∧ c.phase ≠ .joining ∧ c.phase ≠ .finishing) : Awaits n c [] := by
  obtain ⟨hr, hj, hf⟩ := h
  rw [Awaits]
  split <;> simp_all

/-- callback comes out neither before the reply nor behind the join. -/
theorem callback_phases {command : Command} {r : Message} :
    callback command r ≠ .receiving ∧ callback command r ≠ .finishing := by
  cases command with
  | nlst => simp only [callback]; split <;> simp
  | retr => simp only [callback]; split <;> simp
  | _ => simp [callback]

/-- After a reply that does not lead to the join nothing more is awaited. -/
theorem awaits_callback {n : Nat} {command : Command} {r : Message} (s : System)
    (h : callback command r ≠ .joining) : Awaits n (s.goTo (callback command r)).client [] :=
  awaits_nil ⟨callback_phases.1, h, callback_phases.2⟩

private theorem owed_ended {requests : List Message} :
    ({ s with serving := .ended, requests := requests } : System).owed = s.replies := rfl

/-- Whenever the server goes, what it owed is lost. -/
theorem Converses.ended (h : Converses s) (requests : List Message) :
    Converses { s with serving := .ended, requests := requests } := by
  refine .inl ?_
  rcases h with ⟨lost, -, hawaits⟩ | ⟨server, req, -, -, hreplies, hphase⟩
  · rcases hserving : s.serving with server | ⟨o, started⟩ | _
    · rw [System.owed, hserving] at hawaits
      exact ⟨lost, fun hne => absurd rfl hne, hawaits⟩
    · rw [System.owed, hserving, List.append_assoc] at hawaits
      exact ⟨_, fun hne => absurd rfl hne, hawaits⟩
    · rw [System.owed, hserving] at hawaits
      exact ⟨lost, fun hne => absurd rfl hne, hawaits⟩
  · refine ⟨[⟨{}, s.asked.length, 0⟩], fun hne => absurd rfl hne, ?_⟩
    rw [owed_ended, hreplies, Awaits, hphase]
    exact .inl ⟨{}, rfl, callback_ne_joining (by decide)⟩

private theorem converses_ask (h : Converses s) (hphase : s.client.phase = .prompting)
    (command : Command) (req : Message) : Converses (s.ask command req) := by
  rcases h with ⟨lost, hlost, hawaits⟩ | ⟨server, req', -, -, -, hphase'⟩
  · rw [Awaits, hphase] at hawaits
    obtain ⟨howed, -⟩ := List.append_eq_nil_iff.mp hawaits
    rcases hserving : s.serving with server | ⟨o, started⟩ | _
    · rw [System.owed, hserving] at howed
      obtain ⟨-, hrequests⟩ := hlost (by simp [hserving])
      exact .inr ⟨server, req, hserving, by simp [System.ask, hrequests], howed, rfl⟩
    · rw [System.owed, hserving] at howed
      simp at howed
    · rw [System.owed, hserving] at howed
      -- nobody will answer, and callback will run on zeros
      refine .inl ⟨[⟨{}, (s.ask command req).asked.length, 0⟩], fun hne => absurd hserving hne, ?_⟩
      have howed' : (s.ask command req).owed = [] := by
        simp [System.owed, System.ask, hserving, howed]
      rw [howed']
      exact .inl ⟨{}, rfl, callback_ne_joining (by decide)⟩
  · rw [hphase] at hphase'
    cases hphase'

private theorem converses_serve {env : Environment} {server : Server} {req : Message}
    {rest : List Message} {o : Outcome} (h : Converses s) (haligned : Aligned s)
    (hrecorded : Recorded s) (hserving : s.serving = .receiving server)
    (hrequests : s.requests = req :: rest) (served : Served env req server o) :
    Converses (s.serve rest o (startsTransfer env req server)) := by
  have halive : s.serving ≠ .ended := by simp [hserving]
  rcases h with ⟨lost, hlost, -⟩ | ⟨server', req', -, hrequests', hreplies, hphase⟩
  · rw [(hlost halive).2] at hrequests
    cases hrequests
  · obtain ⟨rfl, rfl⟩ := List.cons.inj (hrequests.symm.trans hrequests')
    obtain ⟨before, hasked, hlen⟩ := haligned halive
    rw [hrequests] at hasked
    have hcommand := hrecorded before req hasked
    have hlength : s.asked.length = s.served + 1 := by simp [hasked, hlen]
    refine .inl ⟨[], fun _ => ⟨rfl, rfl⟩, ?_⟩
    rw [List.append_nil, Awaits]
    simp only [System.serve, hphase, System.owed, System.final, System.tagged, hreplies,
      List.nil_append, hlength, ← hcommand]
    rw [sent_of_served served]
    rcases Bool.eq_false_or_eq_true (startsTransfer env req server) with hstarts | hstarts
    · rw [hstarts]
      exact .inr ⟨_, _, rfl, callback_of_startsTransfer hstarts⟩
    · rw [hstarts]
      refine .inl ⟨_, rfl, callback_ne_joining ?_⟩
      exact extractClass_ne_one (status_of_served served)

/-- The final reply was owed before it is sent. -/
theorem owed_reply {o : Outcome} {started : Bool} (hserving : s.serving = .answering o started) :
    (s.reply o started).owed = s.owed := by
  simp [System.owed, System.reply, hserving]

private theorem converses_reply {o : Outcome} {started : Bool} (h : Converses s)
    (hserving : s.serving = .answering o started) : Converses (s.reply o started) := by
  rcases h with ⟨lost, hlost, hawaits⟩ | ⟨server, req, hserving', -⟩
  · obtain ⟨hnil, hrequests⟩ := hlost (by simp [hserving])
    refine .inl ⟨lost, fun _ => ⟨hnil, hrequests⟩, ?_⟩
    rw [owed_reply hserving]
    exact hawaits
  · rw [hserving] at hserving'
    cases hserving'

/-- A reply that is read is no longer owed. -/
theorem owed_of_replies {t : System} {r : Reply} {rest : List Reply}
    (hreplies : s.replies = r :: rest) (hrest : t.replies = rest) (hserving : t.serving = s.serving)
    (hserved : t.served = s.served) : s.owed = r :: t.owed := by
  simp only [System.owed, System.final, hreplies, hrest, hserving, hserved]
  split <;> rfl

private theorem converses_dispatch {r : Reply} {rest : List Reply} (h : Converses s)
    (hphase : s.client.phase = .receiving) (hreplies : s.replies = r :: rest) :
    r.request = s.asked.length ∧ r.position = 0 ∧ Converses (s.dispatch r rest) := by
  rcases h with ⟨lost, hlost, hawaits⟩ | ⟨server, req, -, -, hnil, -⟩
  · have howed : s.owed = r :: (s.dispatch r rest).owed := owed_of_replies hreplies rfl rfl rfl
    rw [Awaits, hphase, howed, List.cons_append] at hawaits
    rcases hawaits with ⟨m, heq, hj⟩ | ⟨m, m', heq, hj⟩
    · obtain ⟨rfl, hrest⟩ := List.cons.inj heq
      refine ⟨rfl, rfl, .inl ⟨lost, hlost, ?_⟩⟩
      rw [hrest]
      exact awaits_callback s hj
    · obtain ⟨rfl, hrest⟩ := List.cons.inj heq
      refine ⟨rfl, rfl, .inl ⟨lost, hlost, ?_⟩⟩
      rw [hrest, Awaits]
      simp only [System.dispatch, System.goTo, hj]
      exact ⟨m', rfl⟩
  · rw [hreplies] at hnil
    cases hnil

private theorem converses_finish {r : Reply} {rest : List Reply} (h : Converses s)
    (hphase : s.client.phase = .finishing) (hreplies : s.replies = r :: rest) :
    r.request = s.asked.length ∧ Converses (s.finish rest) := by
  rcases h with ⟨lost, hlost, hawaits⟩ | ⟨server, req, -, -, -, hphase'⟩
  · have howed : s.owed = r :: (s.finish rest).owed := owed_of_replies hreplies rfl rfl rfl
    rw [Awaits, hphase, howed, List.cons_append] at hawaits
    obtain ⟨m, heq⟩ := hawaits
    obtain ⟨rfl, hrest⟩ := List.cons.inj heq
    refine ⟨rfl, .inl ⟨lost, hlost, ?_⟩⟩
    rw [hrest]
    exact awaits_nil (by simp [System.finish, System.goTo])
  · rw [hphase] at hphase'
    cases hphase'

private theorem converses_client {client : Client} (h : Converses s)
    (hphase : s.client.phase ≠ .receiving)
    (hawaits : ∀ n rs, Awaits n s.client rs → Awaits n client rs) :
    Converses { s with client := client } := by
  rcases h with ⟨lost, hlost, haw⟩ | ⟨server, req, -, -, -, hphase'⟩
  · exact .inl ⟨lost, hlost, hawaits _ _ haw⟩
  · exact absurd hphase' hphase

private theorem converses_nothing {phase : Phase} (hserving : s.serving = .ended)
    (hreplies : s.replies = [])
    (hphase : phase ≠ .receiving ∧ phase ≠ .joining ∧ phase ≠ .finishing) :
    Converses (s.goTo phase) := by
  refine .inl ⟨[], fun hne => absurd hserving hne, ?_⟩
  have howed : (s.goTo phase).owed = [] := by simp [System.owed, System.goTo, hserving, hreplies]
  rw [howed]
  exact awaits_nil hphase

private theorem converses_step (h : s.client.phase = .exited ∨ Converses s) (haligned : Aligned s)
    (hrecorded : Recorded s) (hstep : Stepped s a s') :
    s'.client.phase = .exited ∨ Converses s' := by
  rcases h with hexited | h
  · cases hstep with
    | asked userInput command req phase line => simp [hexited] at phase
    | dispatched r rest phase replies => simp [hexited] at phase
    | finished r rest phase replies => simp [hexited] at phase
    | dispatchedZeros phase replies serving => simp [hexited] at phase
    | finishedNothing phase replies serving => simp [hexited] at phase
    | created createResult createHandle res phase => simp [hexited] at phase
    | joined phase => simp [hexited] at phase
    | clientExited => exact .inl rfl
    | _ => exact .inl hexited
  · cases hstep with
    | asked userInput command req phase line => exact .inr (converses_ask h phase command req)
    | askedAgain userInput phase => exact .inr h
    | served env joinStatus server req rest o serving requests outcome =>
      exact .inr (converses_serve h haligned hrecorded serving requests outcome)
    | broken env joinStatus server req rest serving requests outcome => exact .inr (h.ended rest)
    | replied o started serving => exact .inr (converses_reply h serving)
    | dispatched r rest phase replies => exact .inr (converses_dispatch h phase replies).2.2
    | finished r rest phase replies => exact .inr (converses_finish h phase replies).2
    | dispatchedZeros phase replies serving =>
      have hj : callback s.client.sentCommand {} ≠ .joining := callback_ne_joining (by decide)
      exact .inr (converses_nothing serving replies ⟨callback_phases.1, hj, callback_phases.2⟩)
    | finishedNothing phase replies serving =>
      exact .inr (converses_nothing serving replies (by decide))
    | created createResult createHandle res phase =>
      refine .inr (converses_client h (by simp [phase]) (fun n rs haw => ?_))
      rw [Awaits, phase] at haw
      rw [haw]
      refine awaits_nil ?_
      rw [Client.create]
      split <;> simp
    | joined phase =>
      refine .inr (converses_client h (by simp [phase]) (fun n rs haw => ?_))
      rw [Awaits, phase] at haw
      exact haw
    | serverExited => exact .inr (h.ended s.requests)
    | clientExited => exact .inl rfl

private theorem aligned_step (h : Aligned s) (hstep : Stepped s a s') : Aligned s' := by
  cases hstep with
  | asked userInput command req phase line =>
    intro halive
    obtain ⟨before, hasked, hlen⟩ := h halive
    exact ⟨before, by simp [System.ask, hasked], hlen⟩
  | served env joinStatus server req rest o serving requests outcome =>
    intro _
    obtain ⟨before, hasked, hlen⟩ := h (by simp [serving])
    refine ⟨before ++ [req], ?_, by simp [System.serve, hlen]⟩
    rw [requests] at hasked
    simpa [System.serve] using hasked
  | replied o started serving => exact fun _ => h (by simp [serving])
  | broken env joinStatus server req rest serving requests outcome =>
    exact fun halive => absurd rfl halive
  | serverExited => exact fun halive => absurd rfl halive
  | _ => exact h

private theorem recorded_step (h : Recorded s) (hstep : Stepped s a s') : Recorded s' := by
  cases hstep with
  | asked userInput command req phase line =>
    intro before req' hasked
    obtain ⟨-, hreq⟩ := List.append_inj' hasked rfl
    obtain rfl := List.head_eq_of_cons_eq hreq
    exact interpret_request line
  | created createResult createHandle res phase =>
    intro before req hasked
    rw [Client.create]
    split <;> exact h before req hasked
  | _ => exact h

end Conversation

section Counting
variable {s s' : System} {a : Action}

private theorem balanced_step (h : Balanced s) (hconverses : s.client.phase = .exited ∨ Converses s)
    (hstep : Stepped s a s') : Balanced s' := by
  cases hstep with
  | served env joinStatus server req rest o serving requests outcome =>
    intro n
    have hn := h n
    simp only [System.repliesTo, System.serve, List.countP_append] at hn ⊢
    omega
  | replied o started serving =>
    intro n
    have hn := h n
    simp only [System.repliesTo, System.reply, List.countP_append] at hn ⊢
    omega
  | dispatched r rest phase replies =>
    intro n
    have hconverses := hconverses.resolve_left (by simp [phase])
    obtain ⟨hrequest, -, -⟩ := converses_dispatch hconverses phase replies
    have hn := h n
    simp only [System.repliesTo, System.dispatch, System.goTo, replies, List.countP_cons,
      List.count_append, List.count_singleton, hrequest, decide_eq_true_eq, beq_iff_eq] at hn ⊢
    omega
  | finished r rest phase replies =>
    intro n
    have hconverses := hconverses.resolve_left (by simp [phase])
    obtain ⟨hrequest, -⟩ := converses_finish hconverses phase replies
    have hn := h n
    simp only [System.repliesTo, System.finish, System.goTo, replies, List.countP_cons,
      List.count_append, List.count_singleton, hrequest, decide_eq_true_eq, beq_iff_eq] at hn ⊢
    omega
  | _ => exact h

private theorem Numbered.replied_le (h : Numbered s) : s.replied.length ≤ s.served := by
  have haccount := h.account
  rcases hserving : s.serving with server | ⟨o, started⟩ | _
  · simp only [hserving] at haccount
    omega
  · simp only [hserving] at haccount
    omega
  · simpa only [hserving] using haccount

/-- Nothing has been sent to a request that is not served yet. -/
theorem Numbered.repliesTo_next (h : Numbered s) : s.repliesTo (s.served + 1) = 0 := by
  rw [System.repliesTo, List.countP_eq_zero]
  intro r hr
  have hle := h.bound r hr
  simp only [decide_eq_true_eq]
  omega

private theorem mem_tagged {o : Outcome} {r : Reply} (h : r ∈ s.tagged o) :
    r.request = s.served + 1 := by
  obtain ⟨i, hi, rfl⟩ := List.mem_mapIdx.mp h
  rfl

private theorem countP_tagged {o : Outcome} (n : Nat) :
    (s.tagged o).countP (·.request = n) = if n = s.served + 1 then o.sent.length else 0 := by
  split
  · rename_i hn
    rw [List.countP_eq_length.mpr (fun r hr => by simp [mem_tagged hr, hn])]
    simp [System.tagged]
  · rename_i hn
    rw [List.countP_eq_zero]
    intro r hr
    simp [mem_tagged hr, Ne.symm hn]

private theorem numbered_serve {env : Environment} {server : Server} {req : Message}
    {rest : List Message} {o : Outcome} (h : Numbered s) (hserving : s.serving = .receiving server)
    (served : Served env req server o) :
    Numbered (s.serve rest o (startsTransfer env req server)) := by
  have hcount : ∀ n, (s.serve rest o (startsTransfer env req server)).repliesTo n =
      s.repliesTo n + if n = s.served + 1 then o.sent.length else 0 := by
    intro n
    simp only [System.repliesTo, System.serve, List.countP_append, countP_tagged]
  have hle := h.replied_le
  refine ⟨?_, ⟨?_, ?_, ?_⟩, ?_⟩
  · intro r hr
    rcases List.mem_append.mp hr with hr | hr
    · exact Nat.le_succ_of_le (h.bound r hr)
    · exact Nat.le_of_eq (mem_tagged hr)
  · have haccount := h.account
    rw [hserving] at haccount
    exact congrArg (· + 1) haccount
  · rw [sent_of_served served]
    split <;> rfl
  · have hnext := h.repliesTo_next
    simp only [System.serve] at hcount ⊢
    rw [hcount, hnext, if_pos rfl, Nat.zero_add]
  · intro n started hn
    have hlt : n < s.replied.length := (List.getElem?_eq_some_iff.mp hn).1
    rw [hcount, if_neg (by omega)]
    exact h.replied n started hn

private theorem numbered_reply {o : Outcome} {started : Bool} (h : Numbered s)
    (hserving : s.serving = .answering o started) : Numbered (s.reply o started) := by
  obtain ⟨hlength, hstarted, hsent⟩ : s.replied.length + 1 = s.served ∧
      o.sent.length = (if started then 1 else 0) ∧ s.repliesTo s.served = o.sent.length := by
    have haccount := h.account
    rw [hserving] at haccount
    exact haccount
  have hcount : ∀ n, (s.reply o started).repliesTo n =
      s.repliesTo n + if n = s.served then 1 else 0 := by
    intro n
    simp only [System.repliesTo, System.reply, System.final, List.countP_append,
      List.countP_singleton, decide_eq_true_eq]
    rcases eq_or_ne n s.served with rfl | hne
    · simp
    · rw [if_neg hne, if_neg hne.symm]
  refine ⟨?_, ?_, ?_⟩
  · intro r hr
    rcases List.mem_append.mp hr with hr | hr
    · exact h.bound r hr
    · exact Nat.le_of_eq (congrArg Reply.request (List.mem_singleton.mp hr))
  · simp only [System.reply, List.length_append, List.length_singleton]
    exact hlength
  · intro n started' hn
    rw [hcount]
    rcases Nat.lt_or_ge n s.replied.length with hlt | hge
    · have hold : s.replied[n]? = some started' := by
        rw [← hn]
        exact (List.getElem?_append_left hlt).symm
      rw [if_neg (by omega)]
      exact h.replied n started' hold
    · have hlast : n + 1 = s.served ∧ started' = started := by
        have hlt := (List.getElem?_eq_some_iff.mp hn).1
        simp only [System.reply, List.length_append, List.length_singleton] at hlt
        obtain rfl : n = s.replied.length := by omega
        simp only [System.reply, List.getElem?_concat_length] at hn
        exact ⟨hlength, (Option.some.inj hn).symm⟩
      rw [hlast.1, if_pos rfl, hsent, hstarted, hlast.2]
      cases started <;> rfl

private theorem numbered_step (h : Numbered s) (hstep : Stepped s a s') : Numbered s' := by
  cases hstep with
  | served env joinStatus server req rest o serving requests outcome =>
    exact numbered_serve h serving outcome
  | broken env joinStatus server req rest serving requests outcome =>
    exact ⟨h.bound, h.replied_le, h.replied⟩
  | replied o started serving => exact numbered_reply h serving
  | serverExited => exact ⟨h.bound, h.replied_le, h.replied⟩
  | _ => exact ⟨h.bound, h.account, h.replied⟩

end Counting

structure Steady (s : System) : Prop where
  converses : s.client.phase = .exited ∨ Converses s
  aligned : Aligned s
  recorded : Recorded s
  balanced : Balanced s
  numbered : Numbered s
  dispatched : ∀ d ∈ s.dispatched, FirstReply s.asked d

section Steps
variable {s s' : System} {a : Action}

private theorem FirstReply.concat {asked : List Message} {d : Dispatch} (h : FirstReply asked d)
    (req : Message) : FirstReply (asked ++ [req]) d := by
  obtain ⟨hrequest, hposition, hcommand⟩ := h
  refine ⟨hrequest, hposition, fun n hn => ?_⟩
  obtain ⟨req', hreq', hcommand'⟩ := hcommand n hn
  have hlt := (List.getElem?_eq_some_iff.mp hreq').1
  exact ⟨req', by rw [List.getElem?_append_left hlt, hreq'], hcommand'⟩

private theorem firstReply_step (h : Steady s) (hstep : Stepped s a s') :
    ∀ d ∈ s'.dispatched, FirstReply s'.asked d := by
  cases hstep with
  | asked userInput command req phase line => exact fun d hd => (h.dispatched d hd).concat req
  | dispatched r rest phase replies =>
    intro d hd
    rcases List.mem_append.mp hd with hd | hd
    · exact h.dispatched d hd
    · obtain rfl := List.mem_singleton.mp hd
      have hconverses := h.converses.resolve_left (by simp [phase])
      obtain ⟨hrequest, hposition, -⟩ := converses_dispatch hconverses phase replies
      refine ⟨hrequest, hposition, fun n hn => ?_⟩
      rcases List.eq_nil_or_concat s.asked with hnil | ⟨before, req, hasked⟩
      · simp [hnil] at hn
      · rw [List.concat_eq_append] at hasked
        have hlen : before.length = n := by simpa [hasked] using hn
        refine ⟨req, ?_, h.recorded before req hasked⟩
        change s.asked[n]? = some req
        rw [hasked, ← hlen, List.getElem?_concat_length]
  | _ => exact h.dispatched

/-- Every step keeps the two in lockstep. -/
theorem steady_step (h : Steady s) (hstep : Stepped s a s') : Steady s' where
  converses := converses_step h.converses h.aligned h.recorded hstep
  aligned := aligned_step h.aligned hstep
  recorded := recorded_step h.recorded hstep
  balanced := balanced_step h.balanced h.converses hstep
  numbered := numbered_step h.numbered hstep
  dispatched := firstReply_step h hstep

/-- The greeting is the first reply. -/
theorem steady_start : Steady {} where
  converses := .inr (.inl ⟨[], fun _ => ⟨rfl, rfl⟩, .inl ⟨_, rfl, by decide⟩⟩)
  aligned := fun _ => ⟨[], rfl, rfl⟩
  recorded := fun before req hasked => by simp at hasked
  balanced := fun n => by simp [System.repliesTo]
  numbered := ⟨by simp [greeting], rfl, by simp⟩
  dispatched := by simp

/-- At the prompt no reply is owed. -/
theorem Steady.unread (h : Steady s) (hphase : s.client.phase = .prompting) : s.owed = [] := by
  rcases h.converses with hexited | ⟨lost, -, hawaits⟩ | ⟨server, req, -, -, -, hphase'⟩
  · simp [hphase] at hexited
  · rw [Awaits, hphase] at hawaits
    exact (List.append_eq_nil_iff.mp hawaits).1
  · simp [hphase] at hphase'

/-- Where none is owed none is on its way. -/
theorem replies_of_owed (h : s.owed = []) : s.replies = [] := by
  rw [System.owed] at h
  split at h
  · exact (List.append_eq_nil_iff.mp h).1
  · exact h

private theorem Steady.lockstep (h : Steady s) : Lockstep s where
  unread := h.unread
  counted := by
    intro hphase n
    have hn := h.balanced n
    rwa [replies_of_owed (h.unread hphase)] at hn
  replied := h.numbered.replied
  dispatched := h.dispatched

end Steps

/-- Whatever the user types, and however the two programs interleave. -/
theorem replies_in_lockstep (actions : List Action) :
    Runs.Visits System.step Lockstep {} actions := by
  intro p s _ hrun
  have hsteady : Steady s :=
    Runs.run_invariant (I := Steady) (fun s a s' h hstep => steady_step h (stepped hstep))
      steady_start hrun
  exact hsteady.lockstep

end NetworkProtocol.Ftp
