import NetworkProtocol.Chat.Agreement
import NetworkProtocol.Chat.Attribution

/-! The chat room as its clients see it: main's accepts, the receiver threads and the sender's
rounds on one ring, and the screen of each client from its accept on. -/
namespace NetworkProtocol.Chat.Conversation
open Attribution (Server Socket)
open Agreement (Room Round due maxNumClient)

/-- screens is what each accepted client has been sent. joined is history: how many messages
had gone to the client's place before the client was there. -/
structure Hall where
  server : Server
  round : Option Round := none
  sent : Nat → List Message := fun _ => []
  screens : List (List Message) := []
  joined : List Nat := []

inductive Action where
  | server (a : Attribution.Action)
  | send
  deriving DecidableEq, Repr

namespace Hall

def room (h : Hall) : Room := ⟨h.server.log, h.round, h.sent⟩

def withRoom (h : Hall) (m : Room) : Hall :=
  { h with server := { h.server with log := m.log }, round := m.round, sent := m.sent }

def seat (h : Hall) (server : Server) : Hall :=
  { h with
    server := server
    screens := h.screens ++ [[]]
    joined := h.joined ++ [(h.sent h.screens.length).length] }

/-- One send. A place that no client has taken yet holds descriptor 0, and the message is
lost there. -/
def send (h : Hall) (r : Round) : Hall :=
  { h.withRoom (h.room.send r) with
    screens := h.screens.modify r.id (· ++ [h.server.log.ring.messages r.slot]) }

end Hall

/-- main and the receiver threads as in the server; the one sender thread dequeues between two
rounds only. -/
def step (h : Hall) : Action → Option Hall
  | .server (.accept socket) =>
    (Attribution.step h.server (.accept socket)).map h.seat
  | .server .dequeue =>
    if h.round.isNone then some (h.withRoom h.room.dequeue) else none
  | .server a => (Attribution.step h.server a).map fun server => { h with server := server }
  | .send => h.round.map h.send

def opened (memory : Int → Message) : Hall := { server := Attribution.opened memory }

/-- A message that arrives during a round with 99 slots taken is the very one being sent. -/
def Untouched (h : Hall) : Action → Prop
  | .server (.receive _ text) => Agreement.Untouched h.room (.enqueue ⟨h.server.userId, text⟩)
  | _ => True

/-- The threads read the shared userId only while it is their own. -/
def OwnIndex (h : Hall) : Action → Prop
  | .server a => Attribution.OwnIndex h.server a
  | .send => True

structure Shown (h : Hall) : Prop where
  sound : Agreement.Sound h.room
  accepted : h.server.enqueued.map Prod.snd = h.server.log.accepted
  places : h.screens.length = h.server.socketOfClients.length
  entries : h.joined.length = h.screens.length
  few : h.screens.length ≤ maxNumClient
  since : ∀ (k : Nat) screen n, h.screens[k]? = some screen → h.joined[k]? = some n →
    n ≤ (h.sent k).length ∧ screen = (h.sent k).drop n
  order : ∀ (i j m n : Nat), i < j → h.joined[i]? = some m → h.joined[j]? = some n → m ≤ n + 1

section Steps
variable {h h' : Hall} {a : Action}

/-- What each step needs and does. -/
theorem step_cases (hstep : step h a = some h') :
    (∃ socket, a = .server (.accept socket) ∧ h.server.socketOfClients.length < maxNumClient ∧
      h' = h.seat (h.server.accept socket)) ∨
    (∃ thread text socket, a = .server (.receive thread text) ∧
      h' = { h with server := h.server.receive thread socket text }) ∨
    (a = .server .dequeue ∧ h.round = none ∧ h' = h.withRoom h.room.dequeue) ∨
    (∃ r, a = .send ∧ h.round = some r ∧ h' = h.send r) ∨
    (∃ b server, a = .server b ∧ (∀ thread text, b ≠ .receive thread text) ∧
      h' = { h with server := server } ∧ server.log = h.server.log ∧
      server.enqueued = h.server.enqueued ∧
      server.socketOfClients = h.server.socketOfClients) := by
  cases a with
  | server b =>
    cases b with
    | accept socket =>
      obtain ⟨server, hserver, rfl⟩ := Option.map_eq_some_iff.mp hstep
      simp only [Attribution.step, Option.ite_none_right_eq_some, Option.some.injEq] at hserver
      obtain ⟨⟨hfew, -⟩, rfl⟩ := hserver
      exact .inl ⟨socket, rfl, hfew, rfl⟩
    | receive thread text =>
      obtain ⟨server, hserver, rfl⟩ := Option.map_eq_some_iff.mp hstep
      simp only [Attribution.step] at hserver
      split at hserver
      · obtain rfl := Option.some.inj hserver
        exact .inr (.inl ⟨thread, text, _, rfl, rfl⟩)
      · cases hserver
    | dequeue =>
      obtain ⟨hround, rfl⟩ := Runs.guarded hstep
      exact .inr (.inr (.inl ⟨rfl, Option.isNone_iff_eq_none.mp hround, rfl⟩))
    | evaluate thread =>
      obtain ⟨server, hserver, rfl⟩ := Option.map_eq_some_iff.mp hstep
      simp only [Attribution.step] at hserver
      split at hserver
      · obtain rfl := Option.some.inj hserver
        exact .inr (.inr (.inr (.inr ⟨_, _, rfl, by simp, rfl, rfl, rfl, rfl⟩)))
      · cases hserver
    | close thread =>
      obtain ⟨server, hserver, rfl⟩ := Option.map_eq_some_iff.mp hstep
      simp only [Attribution.step] at hserver
      split at hserver
      · obtain rfl := Option.some.inj hserver
        exact .inr (.inr (.inr (.inr ⟨_, _, rfl, by simp, rfl, rfl, rfl, rfl⟩)))
      · cases hserver
  | send =>
    obtain ⟨r, hr, rfl⟩ := Option.map_eq_some_iff.mp hstep
    exact .inr (.inr (.inr (.inl ⟨r, rfl, hr, rfl⟩)))

private theorem due_ahead (m : Room) {i j : Nat} (hij : i < j) :
    (due m i).length ≤ (due m j).length + 1 := by
  rcases hround : m.round with _ | r
  · rw [Agreement.due_of_none hround, Agreement.due_of_none hround]
    omega
  · rw [Agreement.due_of_some hround, Agreement.due_of_some hround]
    split <;> split <;> grind

private theorem Shown.seat (hs : Shown h) (hfew : h.server.socketOfClients.length < maxNumClient)
    (socket : Socket) : Shown (h.seat (h.server.accept socket)) := by
  refine ⟨hs.sound, hs.accepted, ?_, ?_, ?_, ?_, ?_⟩
  · simp [Hall.seat, Server.accept, hs.places]
  · simp [Hall.seat, hs.entries]
  · have := hs.places
    simp [Hall.seat]
    omega
  · intro k screen n hscreen hn
    simp only [Hall.seat, List.getElem?_append, List.getElem?_singleton] at hscreen hn
    rw [hs.entries] at hn
    by_cases hold : k < h.screens.length
    · rw [if_pos hold] at hscreen hn
      exact hs.since k screen n hscreen hn
    · rw [if_neg hold] at hscreen hn
      obtain ⟨hk, hempty⟩ := Option.ite_none_right_eq_some.mp hscreen
      obtain ⟨-, hlen⟩ := Option.ite_none_right_eq_some.mp hn
      obtain rfl : k = h.screens.length := by omega
      obtain rfl := Option.some.inj hlen
      exact ⟨le_rfl, by rw [← Option.some.inj hempty]; exact (List.drop_length).symm⟩
  · intro i j m n hij hm hn
    simp only [Hall.seat, List.getElem?_append, List.getElem?_singleton] at hm hn
    rw [hs.entries] at hm hn
    have hi : i < h.screens.length := by
      by_contra hge
      rw [if_neg (by omega)] at hn
      obtain ⟨hj, -⟩ := Option.ite_none_right_eq_some.mp hn
      omega
    rw [if_pos hi] at hm
    by_cases hold : j < h.screens.length
    · rw [if_pos hold] at hn
      exact hs.order i j m n hij hm hn
    · rw [if_neg hold] at hn
      obtain ⟨hj, hlen⟩ := Option.ite_none_right_eq_some.mp hn
      obtain rfl : j = h.screens.length := by omega
      obtain rfl := Option.some.inj hlen
      have hplaces := hs.places
      obtain ⟨hle, -⟩ := hs.since i _ m (List.getElem?_eq_getElem hi) hm
      have hsent_i := hs.sound.agreed i (by omega)
      have hsent_j := hs.sound.agreed h.screens.length (by omega)
      calc m ≤ (h.sent i).length := hle
        _ = (due h.room i).length := congrArg List.length hsent_i
        _ ≤ (due h.room h.screens.length).length + 1 := due_ahead h.room hij
        _ = (h.sent h.screens.length).length + 1 := by rw [← hsent_j]; rfl

private theorem Shown.send (hs : Shown h) {r : Round} (hr : h.round = some r) :
    Shown (h.send r) := by
  have hsound : Agreement.Sound (h.send r).room := hs.sound.send hr
  refine ⟨hsound, hs.accepted, ?_, ?_, ?_, ?_, hs.order⟩
  · exact (List.length_modify _ _ _).trans hs.places
  · exact hs.entries.trans (List.length_modify _ _ _).symm
  · exact (List.length_modify _ _ _).trans_le hs.few
  · intro k screen n hscreen hn
    simp only [Hall.send, List.getElem?_modify] at hscreen
    obtain ⟨old, hold, rfl⟩ := Option.map_eq_some_iff.mp hscreen
    obtain ⟨hle, rfl⟩ := hs.since k old n hold hn
    rcases eq_or_ne r.id k with rfl | hne
    · have hsent : (h.send r).sent r.id = h.sent r.id ++ [h.server.log.ring.messages r.slot] :=
        Function.update_self _ _ _
      rw [hsent, if_pos rfl, List.drop_append_of_le_length hle, List.length_append]
      exact ⟨by omega, rfl⟩
    · have hsent : (h.send r).sent k = h.sent k := Function.update_of_ne hne.symm _ _
      rw [hsent, if_neg hne]
      exact ⟨hle, rfl⟩

private theorem Shown.receive (hs : Shown h) {thread : Nat} {socket : Socket} {text : CString}
    (hok : Untouched h (.server (.receive thread text))) :
    Shown { h with server := h.server.receive thread socket text } := by
  refine ⟨hs.sound.enqueue hok, ?_, hs.places, hs.entries, hs.few, hs.since, hs.order⟩
  have haccepted := hs.accepted
  rcases Bool.eq_false_or_eq_true (isFull h.server.log.ring) with hfull | hfull
  · simpa [Server.receive, call, enqueue, hfull] using haccepted
  · simp [Server.receive, call, enqueue, hfull, haccepted]

/-- Every step but a message into the slot being sent keeps the screens. -/
theorem Shown.step (hs : Shown h) (hstep : step h a = some h') (hok : Untouched h a) :
    Shown h' := by
  obtain ⟨socket, rfl, hfew, rfl⟩ | ⟨thread, text, socket, rfl, rfl⟩ | ⟨rfl, hround, rfl⟩ |
    ⟨r, rfl, hr, rfl⟩ | ⟨b, server, rfl, -, rfl, hlog, henqueued, hsockets⟩ := step_cases hstep
  · exact hs.seat hfew socket
  · exact hs.receive hok
  · refine ⟨hs.sound.dequeue hround, ?_, hs.places, hs.entries, hs.few, hs.since, hs.order⟩
    have haccepted : (call h.server.log .dequeue).accepted = h.server.log.accepted := by
      unfold call
      cases dequeue h.server.log.ring <;> rfl
    exact hs.accepted.trans haccepted.symm
  · exact hs.send hr
  · refine ⟨?_, ?_, ?_, hs.entries, hs.few, hs.since, hs.order⟩
    · have hroom : Hall.room { h with server := server } = h.room := by simp [Hall.room, hlog]
      rw [hroom]
      exact hs.sound
    · simp only [henqueued, hlog]
      exact hs.accepted
    · simp only [hsockets]
      exact hs.places

end Steps

end NetworkProtocol.Chat.Conversation
