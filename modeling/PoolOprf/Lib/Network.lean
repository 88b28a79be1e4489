import PoolOprf.Lib.Reachable
import Mathlib.Order.GameAdd

/-!
# Two processes and the streams between them

A process (`Process`) is what one party does: it sends a message on a stream, waits for one, or is
done with a result. Two processes over ordered streams (`Network`) move one at a time, in any order
(`Network.Step`); a stream that its sender has left ends after its last message. `Process.run` is
the same process as a function, from all messages on its streams to its result and to all that it
sends.

Three rules say what does not depend on the order. Every run is finite, because a process is a tree
(`Network.noEndlessRun`). What a process has done is its function of what the other one has sent,
whatever process that is (`Network.follows`). And the moves of the two sides commute
(`Network.diamond`), so that one run to the end gives the end of every run: `Dual` processes, the
one waiting for what the other one sends next, have such a run, so they are never stuck, and their
results are functions of each other's messages (`Dual.outcome`).
-/

/-! ## Streams -/

/-- The messages on some streams. -/
abbrev Queues {A : Type} (M : A → Type) : Type := (a : A) → List (M a)

namespace Queues

variable {A : Type} {M : A → Type}

/-- Nothing on any stream. -/
def empty (M : A → Type) : Queues M := fun _ => []

/-- The messages of each stream one after the other. -/
def append (queues later : Queues M) : Queues M := fun a => queues a ++ later a

theorem append_empty (queues : Queues M) : queues.append (empty M) = queues :=
  funext fun a => List.append_nil (queues a)

theorem empty_append (queues : Queues M) : (empty M).append queues = queues := rfl

theorem append_assoc (first second third : Queues M) :
    (first.append second).append third = first.append (second.append third) :=
  funext fun a => List.append_assoc (first a) (second a) (third a)

variable [DecidableEq A] {b : A} {message' : M b} {queues rest : Queues M}

/-- A message behind the others of its stream. -/
def push (queues : Queues M) (a : A) (message : M a) : Queues M :=
  Function.update queues a (queues a ++ [message])

/-- A message before the others of its stream. -/
def cons (a : A) (message : M a) (queues : Queues M) : Queues M :=
  Function.update queues a (message :: queues a)

/-- The first message of a stream, and what is left. -/
def pop (queues : Queues M) (b : A) : Option (M b × Queues M) :=
  match queues b with
  | [] => none
  | message :: messages => some (message, Function.update queues b messages)

/-- A message that is pushed comes before the later ones. -/
theorem push_eq_append (queues : Queues M) (a : A) (message : M a) :
    queues.push a message = queues.append (cons a message (empty M)) := by
  funext a'
  unfold push append cons
  by_cases h : a' = a
  · subst h
    rw [Function.update_self, Function.update_self]
    rfl
  · rw [Function.update_of_ne h, Function.update_of_ne h]
    exact (List.append_nil _).symm

theorem cons_append (a : A) (message : M a) (queues later : Queues M) :
    (cons a message queues).append later = cons a message (queues.append later) := by
  funext a'
  unfold append cons
  by_cases h : a' = a
  · subst h
    rw [Function.update_self, Function.update_self]
    rfl
  · rw [Function.update_of_ne h, Function.update_of_ne h]

theorem pop_eq_none : queues.pop b = none ↔ queues b = [] := by
  unfold pop
  split
  · rename_i hb
    exact ⟨fun _ => hb, fun _ => rfl⟩
  · rename_i hb
    rw [hb]
    exact ⟨fun h => (by cases h), fun h => (by cases h)⟩

theorem pop_eq_some : queues.pop b = some (message', rest) ↔
    ∃ messages, queues b = message' :: messages ∧ rest = Function.update queues b messages := by
  unfold pop
  split
  · rename_i hb
    rw [hb]
    exact ⟨fun h => (by cases h), fun ⟨_, h, _⟩ => (by cases h)⟩
  · rename_i message messages hb
    rw [hb, Option.some.injEq, Prod.mk.injEq]
    constructor
    · rintro ⟨rfl, rfl⟩
      exact ⟨messages, rfl, rfl⟩
    · rintro ⟨_, h, rfl⟩
      obtain ⟨rfl, rfl⟩ := List.cons.inj h
      exact ⟨rfl, rfl⟩

/-- What comes later does not change what is read first. -/
theorem pop_append (h : queues.pop b = some (message', rest)) (later : Queues M) :
    (queues.append later).pop b = some (message', rest.append later) := by
  obtain ⟨messages, hb, rfl⟩ := pop_eq_some.mp h
  refine pop_eq_some.mpr ⟨messages ++ later b, ?_, ?_⟩
  · unfold append
    rw [hb, List.cons_append]
  · funext a'
    unfold append
    by_cases ha : a' = b
    · subst ha
      rw [Function.update_self, Function.update_self]
    · rw [Function.update_of_ne ha, Function.update_of_ne ha]

theorem pop_push (h : queues.pop b = some (message', rest)) (a : A) (message : M a) :
    (queues.push a message).pop b = some (message', rest.push a message) := by
  rw [push_eq_append, push_eq_append]
  exact pop_append h _

/-- The only message is the first. -/
theorem pop_push_empty (a : A) (message : M a) :
    ((empty M).push a message).pop a = some (message, empty M) := by
  refine pop_eq_some.mpr ⟨[], Function.update_self a _ _, ?_⟩
  funext a'
  unfold push
  by_cases ha : a' = a
  · subst ha
    rw [Function.update_self]
    rfl
  · rw [Function.update_of_ne ha, Function.update_of_ne ha]

end Queues

/-! ## Processes -/

/-- What a party does that sends on the streams `A` and receives on the streams `B`. -/
inductive Process {A B : Type} (P : A → Type) (Q : B → Type) (R : Type) : Type
  /-- It is done. -/
  | done (result : R)
  /-- It sends a message. -/
  | send (a : A) (message : P a) (next : Process P Q R)
  /-- It waits for a message, and goes on with it, or with `none` where the stream has ended. -/
  | receive (b : B) (next : Option (Q b) → Process P Q R)

namespace Process

variable {A B : Type} {P : A → Type} {Q : B → Type} {R T : Type}

/-- The process has left. -/
def isDone : Process P Q R → Bool
  | done _ => true
  | _ => false

/-- A process and one that it can go on with. -/
inductive Child : Process P Q R → Process P Q R → Prop
  | send (a : A) (message : P a) (next : Process P Q R) : Child next (send a message next)
  | receive (b : B) (next : Option (Q b) → Process P Q R) (message : Option (Q b)) :
      Child (next message) (receive b next)

/-- A process is a tree, so it goes on only so far. -/
theorem child_wellFounded : WellFounded (Child (P := P) (Q := Q) (R := R)) := by
  refine ⟨fun p => ?_⟩
  induction p with
  | done result => exact ⟨_, fun _ h => (by cases h)⟩
  | send a message next ih => exact ⟨_, fun _ h => (by cases h; exact ih)⟩
  | receive b next ih => exact ⟨_, fun _ h => (by cases h; exact ih _)⟩

theorem isDone_iff {p : Process P Q R} : p.isDone = true ↔ ∃ result, p = done result := by
  cases p with
  | done result => exact ⟨fun _ => ⟨result, rfl⟩, fun _ => rfl⟩
  | send a message next => exact ⟨fun h => (by cases h), fun ⟨_, h⟩ => (by cases h)⟩
  | receive b next => exact ⟨fun h => (by cases h), fun ⟨_, h⟩ => (by cases h)⟩

variable [DecidableEq A] [DecidableEq B]

/-- The next move, with the messages that have come and those that are sent, or `none` while it
waits. `closed` says that the other side has left. -/
def move (closed : Bool) :
    Process P Q R → Queues Q → Queues P → Option (Process P Q R × Queues Q × Queues P)
  | done _, _, _ => none
  | send a message next, inbox, outbox => some (next, inbox, outbox.push a message)
  | receive b next, inbox, outbox =>
    match inbox.pop b with
    | some (message, inbox) => some (next (some message), inbox, outbox)
    | none => if closed then some (next none, inbox, outbox) else none

/-- The result and all that is sent, with all messages on the streams that it receives on. -/
def run : Process P Q R → Queues Q → R × Queues P
  | done result, _ => (result, .empty P)
  | send a message next, inbox => ((next.run inbox).1, .cons a message (next.run inbox).2)
  | receive b next, inbox =>
    match inbox.pop b with
    | some (message, inbox) => (next (some message)).run inbox
    | none => (next none).run inbox

variable {p p' : Process P Q R} {q q' : Process Q P T} {closed : Bool} {inbox inbox' : Queues Q}
  {outbox outbox' : Queues P}

/-- A process that waits on a stream with no message reads its end. -/
theorem run_receive_nil {b : B} {inbox : Queues Q} (next : Option (Q b) → Process P Q R)
    (h : inbox b = []) : (receive b next).run inbox = (next none).run inbox := by
  rw [run, Queues.pop_eq_none.mpr h]

/-- Otherwise it reads the first message. -/
theorem run_receive_cons {b : B} {inbox : Queues Q} (next : Option (Q b) → Process P Q R) {message : Q b}
    {messages : List (Q b)} (h : inbox b = message :: messages) : (receive b next).run inbox =
      (next (some message)).run (Function.update inbox b messages) := by
  rw [run, Queues.pop_eq_some.mpr ⟨messages, h, rfl⟩]

theorem move_of_isDone (h : p.isDone = true) : p.move closed inbox outbox = none := by
  cases p with
  | done result => rfl
  | send a message next => cases h
  | receive b next => cases h

/-- A process that waits reads a message, or the end of a stream that the other side has left. -/
theorem move_receive {b : B} {next : Option (Q b) → Process P Q R}
    (h : (receive b next).move closed inbox outbox = some (p', inbox', outbox')) : outbox' = outbox ∧
      ((∃ message, inbox.pop b = some (message, inbox') ∧ p' = next (some message)) ∨
        closed = true ∧ inbox.pop b = none ∧ inbox' = inbox ∧ p' = next none) := by
  rw [move] at h
  cases hpop : inbox.pop b with
  | some popped =>
    rw [hpop] at h
    cases h
    exact ⟨rfl, .inl ⟨_, rfl, rfl⟩⟩
  | none =>
    rw [hpop] at h
    dsimp only at h
    split_ifs at h with hclosed
    cases h
    exact ⟨rfl, .inr ⟨hclosed, rfl, rfl, rfl⟩⟩

theorem move_child (h : p.move closed inbox outbox = some (p', inbox', outbox')) : Child p' p := by
  cases p with
  | done result => cases h
  | send a message next =>
    cases h
    exact .send a message p'
  | receive b next =>
    obtain ⟨-, ⟨message, -, rfl⟩ | ⟨-, -, -, rfl⟩⟩ := move_receive h
    · exact .receive b next (some message)
    · exact .receive b next none

/-- A move is a part of the run: what it sends comes first, and the rest is the run of what it goes
on with. Later messages do not change it, but where it takes the other side to have left there must
be none. -/
theorem run_of_move (h : p.move closed inbox outbox = some (p', inbox', outbox')) :
    ∃ sent, outbox' = outbox.append sent ∧
      ∀ later, (closed = true → later = Queues.empty Q) → p.run (inbox.append later) =
        ((p'.run (inbox'.append later)).1, sent.append (p'.run (inbox'.append later)).2) := by
  cases p with
  | done result => cases h
  | send a message next =>
    cases h
    refine ⟨.cons a message (.empty P), Queues.push_eq_append _ _ _, fun later _ => ?_⟩
    rw [Queues.cons_append, Queues.empty_append, run]
  | receive b next =>
    obtain ⟨rfl, hread⟩ := move_receive h
    refine ⟨.empty P, (Queues.append_empty _).symm, fun later hlater => ?_⟩
    rcases hread with ⟨message, hpop, rfl⟩ | ⟨hclosed, hpop, rfl, rfl⟩
    · rw [run, Queues.pop_append hpop, Queues.empty_append]
    · rw [hlater hclosed, Queues.append_empty, run, hpop, Queues.empty_append]

/-- The moves of the two sides commute: each is the same after the other one. -/
theorem move_comm {inbox'' : Queues Q} {outbox'' : Queues P}
    (hp : p.move q.isDone inbox outbox = some (p', inbox', outbox'))
    (hq : q.move p.isDone outbox inbox = some (q', outbox'', inbox'')) :
    ∃ inbox₃ outbox₃, p.move q'.isDone inbox'' outbox'' = some (p', inbox₃, outbox₃) ∧
      q.move p'.isDone outbox' inbox' = some (q', outbox₃, inbox₃) := by
  cases p with
  | done result => cases hp
  | send a message next =>
    cases hp
    cases q with
    | done result => cases hq
    | send b message' next' =>
      cases hq
      exact ⟨_, _, rfl, rfl⟩
    | receive b next' =>
      -- What `p` sends comes behind what `q` reads.
      obtain ⟨rfl, ⟨message', hpop, rfl⟩ | ⟨hdone, -⟩⟩ := move_receive hq
      · refine ⟨_, _, rfl, ?_⟩
        rw [move, Queues.pop_push hpop]
      · cases hdone
  | receive b next =>
    obtain ⟨rfl, ⟨message, hpop, rfl⟩ | ⟨hdone, -⟩⟩ := move_receive hp
    · clear hp
      cases q with
      | done result => cases hq
      | send a message' next' =>
        cases hq
        refine ⟨_, _, ?_, rfl⟩
        rw [move, Queues.pop_push hpop]
      | receive a next' =>
        obtain ⟨rfl, ⟨message', hpop', rfl⟩ | ⟨hdone, -⟩⟩ := move_receive hq
        · refine ⟨inbox', outbox'', ?_, ?_⟩
          · rw [move, hpop]
          · rw [move, hpop']
        · cases hdone
    · -- `p` reads the end of a stream of `q`, which has left and does not move.
      rw [move_of_isDone hdone] at hq
      cases hq

end Process

/-! ## Networks -/

/-- Two processes, and the messages that are sent and not read. -/
structure Network {A B : Type} (P : A → Type) (Q : B → Type) (R T : Type) where
  left : Process P Q R
  right : Process Q P T
  /-- What the left side has sent. -/
  toRight : Queues P
  /-- What the right side has sent. -/
  toLeft : Queues Q

namespace Network

variable {A B : Type} [DecidableEq A] [DecidableEq B] {P : A → Type} {Q : B → Type} {R T : Type}

/-- Two processes that have not moved. -/
def new (p : Process P Q R) (q : Process Q P T) : Network P Q R T := ⟨p, q, .empty P, .empty Q⟩

/-- The same network from the other side. -/
def swap (net : Network P Q R T) : Network Q P T R := ⟨net.right, net.left, net.toLeft, net.toRight⟩

/-- One side moves. -/
inductive Step : Network P Q R T → Network P Q R T → Prop
  | left (net : Network P Q R T) (p : Process P Q R) (inbox : Queues Q) (outbox : Queues P)
      (hmove : net.left.move net.right.isDone net.toLeft net.toRight = some (p, inbox, outbox)) :
      Step net ⟨p, net.right, outbox, inbox⟩
  | right (net : Network P Q R T) (q : Process Q P T) (inbox : Queues P) (outbox : Queues Q)
      (hmove : net.right.move net.left.isDone net.toRight net.toLeft = some (q, inbox, outbox)) :
      Step net ⟨net.left, q, inbox, outbox⟩

variable {net net' net'' : Network P Q R T} {p : Process P Q R} {q : Process Q P T}

theorem Step.swap (h : Step net net') : Step net.swap net'.swap := by
  cases h with
  | left p inbox outbox hmove => exact .right net.swap p inbox outbox hmove
  | right q inbox outbox hmove => exact .left net.swap q inbox outbox hmove

theorem reachable_swap (h : Reachable Step net net') : Reachable Step net.swap net'.swap := by
  unfold Reachable at h ⊢
  exact h.lift swap fun _ _ hstep => hstep.swap

/-- Each step takes one of the two processes to a part of it. -/
theorem Step.child (h : Step net net') : Prod.GameAdd Process.Child Process.Child
    (net'.left, net'.right) (net.left, net.right) := by
  cases h with
  | left p inbox outbox hmove => exact .fst (Process.move_child hmove)
  | right q inbox outbox hmove => exact .snd (Process.move_child hmove)

/-- No run goes on for ever. -/
theorem noEndlessRun : NoEndlessRun (Step (P := P) (Q := Q) (R := R) (T := T)) := by
  rintro ⟨run, hrun⟩
  have hwf : WellFounded (Prod.GameAdd (Process.Child (P := P) (Q := Q) (R := R))
      (Process.Child (P := Q) (Q := P) (R := T))) :=
    Process.child_wellFounded.prod_gameAdd Process.child_wellFounded
  exact (wellFounded_iff_isEmpty_descending_chain.mp hwf).false
    ⟨fun n => ((run n).left, (run n).right), fun n => (hrun n).child⟩

/-- Two steps from one state are the same, or lead to one state in one step more. -/
theorem diamond (h : Step net net') (h' : Step net net'') :
    net' = net'' ∨ ∃ last, Step net' last ∧ Step net'' last := by
  cases h with
  | left p inbox outbox hmove =>
    cases h' with
    | left p' inbox' outbox' hmove' =>
      rw [hmove] at hmove'
      cases hmove'
      exact .inl rfl
    | right q inbox' outbox' hmove' =>
      obtain ⟨inbox₃, outbox₃, hp, hq⟩ := Process.move_comm hmove hmove'
      exact .inr ⟨_, .right _ q _ _ hq, .left _ p _ _ hp⟩
  | right q inbox outbox hmove =>
    cases h' with
    | left p inbox' outbox' hmove' =>
      obtain ⟨inbox₃, outbox₃, hp, hq⟩ := Process.move_comm hmove' hmove
      exact .inr ⟨_, .left _ p _ _ hp, .right _ q _ _ hq⟩
    | right q' inbox' outbox' hmove' =>
      rw [hmove] at hmove'
      cases hmove'
      exact .inl rfl

/-- A state that no step leaves is the end of every run. -/
theorem reaches_end {last : Network P Q R T} (hlast : Reachable Step net last)
    (hend : ∀ next, ¬ Step last next) (h : Reachable Step net net') : Reachable Step net' last := by
  obtain ⟨meet, hmeet, hmeet'⟩ := Relation.church_rosser (fun start one other hone hother => by
    rcases diamond hone hother with rfl | ⟨next, hnext, hnext'⟩
    · exact ⟨one, .refl, .refl⟩
    · exact ⟨next, .single hnext, .single hnext'⟩) hlast h
  -- Nothing comes after the end, so both runs meet there.
  rcases hmeet.cases_head with rfl | ⟨next, hnext, -⟩
  · exact hmeet'
  · exact absurd hnext (hend next)

/-! ### What has been sent -/

/-- In `net` the left side has sent `fromLeft` and the right side `fromRight`, and each side has
done what its run does with what the other one has sent. -/
structure Follows (p : Process P Q R) (q : Process Q P T) (net : Network P Q R T) (fromLeft : Queues P)
    (fromRight : Queues Q) : Prop where
  left : ∀ later, (net.right.isDone = true → later = Queues.empty Q) → p.run (fromRight.append later) =
    ((net.left.run (net.toLeft.append later)).1,
      fromLeft.append (net.left.run (net.toLeft.append later)).2)
  right : ∀ later, (net.left.isDone = true → later = Queues.empty P) → q.run (fromLeft.append later) =
    ((net.right.run (net.toRight.append later)).1,
      fromRight.append (net.right.run (net.toRight.append later)).2)

theorem Follows.swap {fromLeft : Queues P} {fromRight : Queues Q} (h : Follows p q net fromLeft fromRight) :
    Follows q p net.swap fromRight fromLeft := ⟨h.right, h.left⟩

/-- A move of the left side. -/
theorem Follows.moved {fromLeft : Queues P} {fromRight : Queues Q} (h : Follows p q net fromLeft fromRight)
    {p' : Process P Q R} {inbox : Queues Q} {outbox : Queues P}
    (hmove : net.left.move net.right.isDone net.toLeft net.toRight = some (p', inbox, outbox)) :
    ∃ fromLeft', Follows p q ⟨p', net.right, outbox, inbox⟩ fromLeft' fromRight := by
  obtain ⟨sent, rfl, hrun⟩ := Process.run_of_move hmove
  refine ⟨fromLeft.append sent, fun later hlater => ?_, fun later _ => ?_⟩
  · rw [h.left later hlater, hrun later hlater, Queues.append_assoc]
  · -- The left side moved, so it had not left: more could come from it, and `sent` did.
    have hleft : net.left.isDone = true → sent.append later = Queues.empty P := by
      intro hdone
      rw [Process.move_of_isDone hdone] at hmove
      cases hmove
    rw [Queues.append_assoc, h.right _ hleft, Queues.append_assoc]

/-- Whatever the other process is, a side does what its run does with the messages that the other
one has sent. -/
theorem follows (h : Reachable Step (new p q) net) :
    ∃ fromLeft fromRight, Follows p q net fromLeft fromRight := by
  have hstep : ∀ {net net' : Network P Q R T}, (∃ fromLeft fromRight, Follows p q net fromLeft fromRight) →
      Step net net' → ∃ fromLeft fromRight, Follows p q net' fromLeft fromRight := by
    rintro net net' ⟨fromLeft, fromRight, hfollows⟩ hstep
    cases hstep with
    | left p' inbox outbox hmove =>
      obtain ⟨fromLeft', hfollows'⟩ := hfollows.moved hmove
      exact ⟨fromLeft', fromRight, hfollows'⟩
    | right q' inbox outbox hmove =>
      obtain ⟨fromRight', hfollows'⟩ := hfollows.swap.moved hmove
      exact ⟨fromLeft, fromRight', hfollows'.swap⟩
  induction h with
  | refl => exact ⟨.empty P, .empty Q, fun _ _ => rfl, fun _ _ => rfl⟩
  | tail _ hlast ih => exact hstep ih hlast

/-- A side that is done has the result of its run, and has read the first messages of the run of the
other side. -/
theorem Follows.result {fromLeft : Queues P} {fromRight : Queues Q} (h : Follows p q net fromLeft fromRight)
    {result : R} (hdone : net.left = .done result) : p.run fromRight = (result, fromLeft) ∧
      ∃ later, (q.run fromLeft).2 = fromRight.append later := by
  have hrun := h.left (.empty Q) fun _ => rfl
  have hrun' := h.right (.empty P) fun _ => rfl
  rw [Queues.append_empty, hdone] at hrun
  rw [Queues.append_empty] at hrun'
  constructor
  · rw [hrun, Process.run, Queues.append_empty]
  · exact ⟨_, congrArg Prod.snd hrun'⟩

end Network

/-! ## Processes that are not stuck -/

section Dual

variable {A B : Type} {P : A → Type} {Q : B → Type} {R T : Type}

/-- Two processes, the one waiting for what the other one sends next, until one of them is done. -/
inductive Dual : Process P Q R → Process Q P T → Prop
  | left_done (result : R) (q : Process Q P T) : Dual (.done result) q
  | right_done (p : Process P Q R) (result : T) : Dual p (.done result)
  | to_right (a : A) (message : P a) (p : Process P Q R) (next : Option (P a) → Process Q P T)
      (h : Dual p (next (some message))) : Dual (.send a message p) (.receive a next)
  | to_left (b : B) (message : Q b) (next : Option (Q b) → Process P Q R) (q : Process Q P T)
      (h : Dual (next (some message)) q) : Dual (.receive b next) (.send b message q)

namespace Network

variable [DecidableEq A] [DecidableEq B]

/-- With the left side gone, the right side gets to its end. -/
theorem right_ends (result : R) (q : Process Q P T) (inbox : Queues P) (outbox : Queues Q) :
    ∃ last : Network P Q R T, Reachable Step ⟨.done result, q, inbox, outbox⟩ last ∧
      last.left.isDone = true ∧ last.right.isDone = true := by
  induction q generalizing inbox outbox with
  | done result' => exact ⟨_, Reachable.refl _ _, rfl, rfl⟩
  | send b message next ih =>
    obtain ⟨last, hreach, hends⟩ := ih inbox (outbox.push b message)
    exact ⟨last, Relation.ReflTransGen.head (.right _ next _ _ rfl) hreach, hends⟩
  | receive a next ih =>
    cases hpop : inbox.pop a with
    | some popped =>
      obtain ⟨message, rest⟩ := popped
      obtain ⟨last, hreach, hends⟩ := ih (some message) rest outbox
      refine ⟨last, Relation.ReflTransGen.head (.right _ (next (some message)) _ _ ?_) hreach, hends⟩
      rw [Process.move, hpop]
    | none =>
      obtain ⟨last, hreach, hends⟩ := ih none inbox outbox
      refine ⟨last, Relation.ReflTransGen.head (.right _ (next none) _ _ ?_) hreach, hends⟩
      rw [Process.move, hpop]
      rfl

end Network

namespace Dual

variable [DecidableEq A] [DecidableEq B] {p : Process P Q R} {q : Process Q P T}

/-- Each message is read as soon as it is sent, until one side is done and the other one goes on
alone. -/
theorem ends (h : Dual p q) : ∃ last, Reachable Network.Step (.new p q) last ∧
    last.left.isDone = true ∧ last.right.isDone = true := by
  induction h with
  | left_done result q => exact Network.right_ends result q _ _
  | right_done p result =>
    obtain ⟨last, hreach, hright, hleft⟩ := Network.right_ends result p (.empty Q) (.empty P)
    exact ⟨last.swap, Network.reachable_swap hreach, hleft, hright⟩
  | to_right a message p next h ih =>
    obtain ⟨last, hreach, hends⟩ := ih
    refine ⟨last, Relation.ReflTransGen.head (.left _ p _ _ rfl)
      (Relation.ReflTransGen.head (.right _ (next (some message)) (.empty P) (.empty Q) ?_) hreach), hends⟩
    change Process.move _ (.receive a next) ((Queues.empty P).push a message) (Queues.empty Q) = _
    rw [Process.move, Queues.pop_push_empty]
  | to_left b message next q h ih =>
    obtain ⟨last, hreach, hends⟩ := ih
    refine ⟨last, Relation.ReflTransGen.head (.right _ q _ _ rfl)
      (Relation.ReflTransGen.head (.left _ (next (some message)) (.empty Q) (.empty P) ?_) hreach), hends⟩
    change Process.move _ (.receive b next) ((Queues.empty Q).push b message) (Queues.empty P) = _
    rw [Process.move, Queues.pop_push_empty]

/-- Dual processes have one outcome. Every state of every run leads to the end where both are done,
with results and sent messages that are those of their runs on what the other one sent; and a state
that no step leaves is that end. -/
theorem outcome (h : Dual p q) :
    ∃ (result : R) (result' : T) (fromLeft : Queues P) (fromRight : Queues Q),
      p.run fromRight = (result, fromLeft) ∧ q.run fromLeft = (result', fromRight) ∧
      ∀ net, Reachable Network.Step (.new p q) net →
        (∃ last, Reachable Network.Step net last ∧ last.left = .done result ∧ last.right = .done result') ∧
        ((∀ next, ¬ Network.Step net next) → net.left = .done result ∧ net.right = .done result') := by
  obtain ⟨last, hlast, hleft, hright⟩ := h.ends
  obtain ⟨fromLeft, fromRight, hfollows⟩ := Network.follows hlast
  obtain ⟨result, hresult⟩ := Process.isDone_iff.mp hleft
  obtain ⟨result', hresult'⟩ := Process.isDone_iff.mp hright
  have hend : ∀ next, ¬ Network.Step last next := by
    intro next hstep
    cases hstep with
    | left p' inbox outbox hmove =>
      rw [Process.move_of_isDone hleft] at hmove
      cases hmove
    | right q' inbox outbox hmove =>
      rw [Process.move_of_isDone hright] at hmove
      cases hmove
  refine ⟨result, result', fromLeft, fromRight, (hfollows.result hresult).1,
    (hfollows.swap.result hresult').1, ?_⟩
  intro net hnet
  have hreach := Network.reaches_end hlast hend hnet
  refine ⟨⟨last, hreach, hresult, hresult'⟩, fun hstuck => ?_⟩
  rcases hreach.cases_head with rfl | ⟨next, hnext, -⟩
  · exact ⟨hresult, hresult'⟩
  · exact absurd hnext (hstuck next)

end Dual

end Dual
