import PoolOprf.Lib.Reachable
import PoolOprf.Oprf.Preprocessing

/-!
# The opening of the preprocessing

How the two sides of `pool-oprf/src/preprocessing.rs` agree on τ and on the mode before any OT: the
client checks its own τ and sends its hello, the server checks the hello and echoes its own τ, and
each side compares the two. First the functions of each side (`clientHello`, `clientCheck`,
`readHello`, `serverCheck`) with what they accept from any peer (`clientOpening_eq_ok`,
`serverOpening_eq_ok`), then the runs of both sides over two ordered streams (`Opening.Step`), in
which a side may stop at any point.

`Opening.Agreed` is kept by every step and gives that the sides that get past the opening agree.
`Opening.Mismatched` is kept where the two τ differ and gives that both sides end, and how.
-/

namespace PoolOprf

open Panic

variable {S : Permutations}

/-! ## The messages -/

/-- The length of the opening message: `uid`, τ as a little-endian `u64` and whether the client asks
for a VOPRF, 0 or 1. -/
abbrev HELLO_BYTES : ℕ := LAMBDA_BYTES + 8 + 1

/-- τ on the wire. -/
def encodeTau (tau : ℕ) : List UInt8 := u64ToLeBytes tau

/-- What a side that gets past the opening goes on with. -/
structure Opened where
  /-- The session. -/
  uid : Uid
  /-- Its own τ. -/
  tau : ℕ
  /-- Whether it runs a VOPRF. -/
  voprf : Bool

/-- What the server reads in the client's opening message. -/
structure Hello where
  /-- The session. -/
  uid : Uid
  /-- The client's τ. -/
  theirs : ℕ
  /-- Whether the client asks for a VOPRF. -/
  wants_voprf : Bool

section Functions

variable (stark : Stark Val)

/-- The client's opening message, unless it refuses its own τ. -/
def clientHello (uid : Uid) (tau : ℕ) (voprf : Bool) : Except (PreprocError stark) (List UInt8) :=
  if tau = 0 then .error .ZeroTau
  else if voprf ∧ evaluationsFor tau = 0 then .error (.VoprfTauTooSmall tau)
  else .ok (List.ofFn uid ++ encodeTau tau ++ [voprf.toUInt8])

/-- The client's check of the server's τ. -/
def clientCheck (uid : Uid) (tau : ℕ) (voprf : Bool) (echoed : List UInt8) :
    Except (PreprocError stark) Opened :=
  match decodeTau stark echoed with
  | .error error => .error error
  | .ok theirs => if theirs ≠ tau then .error (.TauMismatch tau theirs) else .ok ⟨uid, tau, voprf⟩

/-- The client's opening, with what comes from the server. -/
def clientOpening (uid : Uid) (tau : ℕ) (voprf : Bool) (received : Option (List UInt8)) :
    Except (PreprocError stark) Opened :=
  match clientHello stark uid tau voprf with
  | .error error => .error error
  | .ok _ =>
    match received with
    | none => .error .UnexpectedClose
    | some echoed => clientCheck stark uid tau voprf echoed

/-- What the server reads in the client's opening message. -/
def readHello (hello : List UInt8) : Option (Except (PreprocError stark) Hello) :=
  if hello.length ≠ HELLO_BYTES then some (.error (.Malformed "hello has wrong length"))
  else do
    let uid ← fromFn fun i : Fin LAMBDA_BYTES => hello[i.val]?
    match decodeTau stark ((hello.take (HELLO_BYTES - 1)).drop LAMBDA_BYTES) with
    | .error error => some (.error error)
    | .ok theirs => do
      let flag ← hello[HELLO_BYTES - 1]?
      if flag = 0 then some (.ok ⟨uid, theirs, false⟩)
      else if flag = 1 then some (.ok ⟨uid, theirs, true⟩)
      else some (.error (.Malformed "the VOPRF flag must be 0 or 1"))

/-- The server's check of the client's τ, after its own is sent. -/
def serverCheck (tau : ℕ) (hello : Hello) : Except (PreprocError stark) Opened :=
  if hello.theirs ≠ tau then .error (.TauMismatch tau hello.theirs)
  else if hello.wants_voprf ∧ evaluationsFor tau = 0 then .error (.VoprfTauTooSmall tau)
  else .ok ⟨hello.uid, tau, hello.wants_voprf⟩

/-- The server's opening, with what comes from the client: what it echoes, and what it goes on
with. -/
def serverOpening (tau : ℕ) (received : Option (List UInt8)) :
    Option (Option (List UInt8) × Except (PreprocError stark) Opened) :=
  if tau = 0 then some (none, .error .ZeroTau)
  else
    match received with
    | none => some (none, .error .UnexpectedClose)
    | some hello => do
      match ← readHello stark hello with
      | .error error => some (none, .error error)
      | .ok hello => some (some (encodeTau tau), serverCheck stark tau hello)

end Functions

/-! ## What the functions accept -/

/-- τ as it is on the wire is read back, up to the 64-bit limit. -/
theorem decodeTau_encodeTau (stark : Stark Val) (tau : UInt64) :
    decodeTau stark (encodeTau tau.toNat) = .ok tau.toNat := by
  have hlen : (encodeTau tau.toNat).length = 8 := by
    unfold encodeTau u64ToLeBytes
    rw [List.length_map, List.length_range]
  have hvalue : leToNat (encodeTau tau.toNat) = tau.toNat := by
    unfold encodeTau u64ToLeBytes
    rw [leToNat_bytes]
    exact Nat.mod_eq_of_lt tau.toNat_lt
  unfold decodeTau
  rw [if_pos hlen, hvalue]

theorem decodeTau_eq_ok {stark : Stark Val} {bytes : List UInt8} {tau : ℕ} :
    decodeTau stark bytes = .ok tau ↔ bytes.length = 8 ∧ leToNat bytes = tau := by
  unfold decodeTau
  split_ifs with h
  · rw [Except.ok.injEq]
    exact ⟨fun htau => ⟨h, htau⟩, fun htau => htau.2⟩
  · exact ⟨fun hok => (by cases hok), fun hok => absurd hok.1 h⟩

/-- A τ pays for no evaluation exactly where it is less than that of one. -/
theorem evaluationsFor_eq_zero {tau : ℕ} : evaluationsFor tau = 0 ↔ tau < H_ROWS := by
  unfold evaluationsFor
  rw [Nat.div_eq_zero_iff]
  have hrows : (16 : ℕ) ≠ 0 := by norm_num
  exact ⟨fun h => h.resolve_left hrows, Or.inr⟩

/-- The τ that a side may go on with: at least 1, and at least an evaluation for a VOPRF. -/
def TauAllowed (tau : ℕ) (voprf : Bool) : Prop := 1 ≤ tau ∧ (voprf = true → H_ROWS ≤ tau)

section Accepts

variable {stark : Stark Val} {uid : Uid} {tau : ℕ} {voprf : Bool}

/-- The client sends a hello exactly where its own τ is allowed. -/
theorem clientHello_of_allowed (h : TauAllowed tau voprf) :
    clientHello stark uid tau voprf =
      .ok (List.ofFn uid ++ encodeTau tau ++ [voprf.toUInt8]) := by
  obtain ⟨hpos, hrows⟩ := h
  unfold clientHello
  rw [if_neg (by omega), if_neg]
  rintro ⟨hvoprf, hzero⟩
  have hle := hrows hvoprf
  rw [evaluationsFor_eq_zero] at hzero
  omega

theorem clientHello_eq_ok {hello : List UInt8} (h : clientHello stark uid tau voprf = .ok hello) :
    TauAllowed tau voprf ∧ hello = List.ofFn uid ++ encodeTau tau ++ [voprf.toUInt8] := by
  unfold clientHello at h
  split_ifs at h with hzero hsmall
  refine ⟨⟨Nat.one_le_iff_ne_zero.mpr hzero, fun hvoprf => ?_⟩, (Except.ok.inj h).symm⟩
  rw [evaluationsFor_eq_zero, not_and, Nat.not_lt] at hsmall
  exact hsmall hvoprf

theorem clientCheck_eq_ok {echoed : List UInt8} {opened : Opened} :
    clientCheck stark uid tau voprf echoed = .ok opened ↔
      decodeTau stark echoed = .ok tau ∧ opened = ⟨uid, tau, voprf⟩ := by
  unfold clientCheck
  cases hdecode : decodeTau stark echoed with
  | error error => exact ⟨fun h => (by cases h), fun h => (by cases h.1)⟩
  | ok theirs =>
    by_cases htau : theirs = tau
    · subst htau
      dsimp only
      rw [if_neg (not_not.mpr rfl), Except.ok.injEq]
      exact ⟨fun h => ⟨rfl, h.symm⟩, fun h => h.2.symm⟩
    · dsimp only
      rw [if_pos htau]
      exact ⟨fun h => (by cases h), fun h => absurd (Except.ok.inj h.1) htau⟩

/-- The client goes on exactly where its own τ is allowed and the echo is that τ. -/
theorem clientOpening_eq_ok {received : Option (List UInt8)} {opened : Opened} :
    clientOpening stark uid tau voprf received = .ok opened ↔
      TauAllowed tau voprf ∧ opened = ⟨uid, tau, voprf⟩ ∧
      ∃ echoed, received = some echoed ∧ echoed.length = 8 ∧ leToNat echoed = tau := by
  unfold clientOpening
  constructor
  · intro h
    cases hhello : clientHello stark uid tau voprf with
    | error error =>
      rw [hhello] at h
      cases h
    | ok hello =>
      rw [hhello] at h
      cases received with
      | none => cases h
      | some echoed =>
        obtain ⟨hdecode, hopened⟩ := clientCheck_eq_ok.mp h
        exact ⟨(clientHello_eq_ok hhello).1, hopened, echoed, rfl, decodeTau_eq_ok.mp hdecode⟩
  · rintro ⟨hallowed, hopened, echoed, rfl, hechoed⟩
    rw [clientHello_of_allowed hallowed]
    exact clientCheck_eq_ok.mpr ⟨decodeTau_eq_ok.mpr hechoed, hopened⟩

/-- The bytes of an opening message that reads as `h`. -/
structure Hello.ReadFrom (h : Hello) (hello : List UInt8) : Prop where
  length : hello.length = HELLO_BYTES
  uid : ∀ i : Fin LAMBDA_BYTES, hello[i.val]? = some (h.uid i)
  theirs : leToNat ((hello.take (HELLO_BYTES - 1)).drop LAMBDA_BYTES) = h.theirs
  flag : hello[HELLO_BYTES - 1]? = some h.wants_voprf.toUInt8

/-- Bytes read as one hello only. -/
theorem Hello.ReadFrom.unique {h h' : Hello} {hello : List UInt8} (hread : h.ReadFrom hello)
    (hread' : h'.ReadFrom hello) : h = h' := by
  obtain ⟨uid, theirs, wants_voprf⟩ := h
  obtain ⟨uid', theirs', wants_voprf'⟩ := h'
  have huid : uid = uid' := by
    funext i
    exact Option.some.inj ((hread.uid i).symm.trans (hread'.uid i))
  have htheirs : theirs = theirs' := hread.theirs.symm.trans hread'.theirs
  have hflag : wants_voprf.toUInt8 = wants_voprf'.toUInt8 :=
    Option.some.inj (hread.flag.symm.trans hread'.flag)
  have hvoprf : wants_voprf = wants_voprf' := by
    revert hflag
    cases wants_voprf <;> cases wants_voprf' <;> decide
  rw [huid, htheirs, hvoprf]

/-- Of a hello of the right length, the flag decides. -/
theorem readHello_of_length (stark : Stark Val) {hello : List UInt8}
    (hlen : hello.length = HELLO_BYTES) :
    ∃ uid theirs flag, hello[HELLO_BYTES - 1]? = some flag ∧
      (∀ i : Fin LAMBDA_BYTES, hello[i.val]? = some (uid i)) ∧
      leToNat ((hello.take (HELLO_BYTES - 1)).drop LAMBDA_BYTES) = theirs ∧
      readHello stark hello = if flag = 0 then some (.ok ⟨uid, theirs, false⟩)
        else if flag = 1 then some (.ok ⟨uid, theirs, true⟩)
        else some (.error (.Malformed "the VOPRF flag must be 0 or 1")) := by
  have hbytes : hello.length = 25 := hlen
  have hbyte : ∀ i : Fin LAMBDA_BYTES, ∃ byte, hello[i.val]? = some byte := by
    intro i
    have hi : i.val < 16 := i.isLt
    exact ⟨_, List.getElem?_eq_getElem (by omega)⟩
  choose uid huid using hbyte
  obtain ⟨flag, hflag⟩ : ∃ flag, hello[HELLO_BYTES - 1]? = some flag :=
    ⟨_, List.getElem?_eq_getElem (by omega)⟩
  have htau : decodeTau stark ((hello.take (HELLO_BYTES - 1)).drop LAMBDA_BYTES) =
      .ok (leToNat ((hello.take (HELLO_BYTES - 1)).drop LAMBDA_BYTES)) := by
    refine decodeTau_eq_ok.mpr ⟨?_, rfl⟩
    rw [List.length_drop, List.length_take, hbytes]
    rfl
  refine ⟨uid, _, flag, hflag, huid, rfl, ?_⟩
  unfold readHello
  rw [if_neg (not_not.mpr hlen), fromFn_eq_some_iff.mpr huid]
  simp only [Option.bind_eq_bind, Option.bind_some]
  rw [htau, hflag]
  rfl

/-- Whatever the client sends, the server reads it or says that it is malformed. -/
theorem readHello_spec (stark : Stark Val) (hello : List UInt8) :
    ∃ result, readHello stark hello = some result ∧ ∀ h, result = .ok h ↔ h.ReadFrom hello := by
  by_cases hlen : hello.length = HELLO_BYTES
  swap
  · refine ⟨_, if_pos hlen, fun h => ⟨fun hok => (by cases hok), fun hok => ?_⟩⟩
    exact absurd hok.length hlen
  obtain ⟨uid, theirs, flag, hflag, huid, htheirs, hread⟩ := readHello_of_length stark hlen
  by_cases hzero : flag = 0
  · have hfrom : Hello.ReadFrom ⟨uid, theirs, false⟩ hello :=
      ⟨hlen, huid, htheirs, by rw [hflag, hzero]; rfl⟩
    rw [if_pos hzero] at hread
    refine ⟨_, hread, fun h => ⟨fun hok => Except.ok.inj hok ▸ hfrom, fun hok => ?_⟩⟩
    rw [hfrom.unique hok]
  by_cases hone : flag = 1
  · have hfrom : Hello.ReadFrom ⟨uid, theirs, true⟩ hello :=
      ⟨hlen, huid, htheirs, by rw [hflag, hone]; rfl⟩
    rw [if_neg hzero, if_pos hone] at hread
    refine ⟨_, hread, fun h => ⟨fun hok => Except.ok.inj hok ▸ hfrom, fun hok => ?_⟩⟩
    rw [hfrom.unique hok]
  · rw [if_neg hzero, if_neg hone] at hread
    refine ⟨_, hread, fun h => ⟨fun hok => (by cases hok), fun hok => ?_⟩⟩
    -- A flag of a mode is 0 or 1.
    have hmode := Option.some.inj (hflag.symm.trans hok.flag)
    cases hvoprf : h.wants_voprf with
    | false => exact absurd (hmode.trans (congrArg Bool.toUInt8 hvoprf)) hzero
    | true => exact absurd (hmode.trans (congrArg Bool.toUInt8 hvoprf)) hone

/-- What an honest client sends reads as what it means. -/
theorem readHello_clientHello (stark : Stark Val) (uid : Uid) (tau : UInt64) (voprf : Bool) :
    readHello stark (List.ofFn uid ++ encodeTau tau.toNat ++ [voprf.toUInt8]) =
      some (.ok ⟨uid, tau.toNat, voprf⟩) := by
  obtain ⟨hlen, hvalue⟩ := decodeTau_eq_ok.mp (decodeTau_encodeTau stark tau)
  have huid : (List.ofFn uid).length = 16 := List.length_ofFn
  obtain ⟨result, hread, hok⟩ :=
    readHello_spec stark (List.ofFn uid ++ encodeTau tau.toNat ++ [voprf.toUInt8])
  have hfrom : Hello.ReadFrom ⟨uid, tau.toNat, voprf⟩
      (List.ofFn uid ++ encodeTau tau.toNat ++ [voprf.toUInt8]) := by
    constructor
    · rw [List.length_append, List.length_append, huid, hlen]
      rfl
    · intro i
      have hi : i.val < 16 := i.isLt
      rw [List.append_assoc, List.getElem?_append_left (by omega), List.getElem?_ofFn,
        dif_pos i.isLt]
    · have htake : (List.ofFn uid ++ encodeTau tau.toNat ++ [voprf.toUInt8]).take
          (HELLO_BYTES - 1) = List.ofFn uid ++ encodeTau tau.toNat := by
        rw [List.take_append_of_le_length (by rw [List.length_append, huid, hlen]; rfl),
          List.take_of_length_le (by rw [List.length_append, huid, hlen]; rfl)]
      rw [htake, List.drop_left' huid, hvalue]
    · rw [List.getElem?_append_right (by rw [List.length_append, huid, hlen]; rfl),
        List.length_append, huid, hlen]
      rfl
  rw [hread, (hok _).mpr hfrom]

theorem serverCheck_eq_ok {hello : Hello} {opened : Opened} :
    serverCheck stark tau hello = .ok opened ↔ hello.theirs = tau ∧
      (hello.wants_voprf = true → H_ROWS ≤ tau) ∧
      opened = ⟨hello.uid, tau, hello.wants_voprf⟩ := by
  unfold serverCheck
  by_cases htau : hello.theirs = tau
  swap
  · rw [if_pos htau]
    exact ⟨fun h => (by cases h), fun h => absurd h.1 htau⟩
  rw [if_neg (not_not.mpr htau)]
  by_cases hsmall : hello.wants_voprf = true ∧ evaluationsFor tau = 0
  · rw [if_pos hsmall]
    have hlt := evaluationsFor_eq_zero.mp hsmall.2
    exact ⟨fun h => (by cases h), fun h => absurd (h.2.1 hsmall.1) (Nat.not_le_of_lt hlt)⟩
  · rw [if_neg hsmall, Except.ok.injEq]
    rw [evaluationsFor_eq_zero, not_and, Nat.not_lt] at hsmall
    exact ⟨fun h => ⟨htau, hsmall, h.symm⟩, fun h => h.2.2.symm⟩

/-- Whatever the client sends, the server's opening ends, and the server goes on exactly where the
bytes read as a hello with the server's own τ, which is allowed in the mode that the hello asks
for. -/
theorem serverOpening_eq_ok (stark : Stark Val) (tau : ℕ) (received : Option (List UInt8)) :
    ∃ echoed result, serverOpening stark tau received = some (echoed, result) ∧
      ∀ opened, result = .ok opened ↔ opened.tau = tau ∧ TauAllowed tau opened.voprf ∧
        ∃ hello, received = some hello ∧
          Hello.ReadFrom ⟨opened.uid, tau, opened.voprf⟩ hello := by
  unfold serverOpening
  by_cases hzero : tau = 0
  · refine ⟨none, _, if_pos hzero, fun opened => ⟨fun h => (by cases h), fun h => ?_⟩⟩
    have hpos := h.2.1.1
    omega
  have hpos : 1 ≤ tau := Nat.one_le_iff_ne_zero.mpr hzero
  rw [if_neg hzero]
  cases received with
  | none => exact ⟨none, _, rfl, fun opened =>
      ⟨fun h => (by cases h), fun ⟨_, _, _, h, _⟩ => (by cases h)⟩⟩
  | some hello =>
    -- What is left after τ and the stream is the hello itself: read first, then checked.
    obtain ⟨result, hread, hok⟩ := readHello_spec stark hello
    dsimp only
    rw [hread, Option.bind_eq_bind, Option.bind_some]
    cases result with
    | error error =>
      refine ⟨none, _, rfl, fun opened => ⟨fun h => (by cases h), ?_⟩⟩
      rintro ⟨-, -, bytes, hsome, hfrom⟩
      cases hsome
      cases (hok _).mpr hfrom
    | ok h =>
      have hfrom : h.ReadFrom hello := (hok h).mp rfl
      refine ⟨some (encodeTau tau), _, rfl, fun opened => serverCheck_eq_ok.trans ⟨?_, ?_⟩⟩
      · rintro ⟨htau, hrows, rfl⟩
        refine ⟨rfl, ⟨hpos, hrows⟩, hello, rfl, ?_⟩
        rw [← htau]
        exact hfrom
      · rintro ⟨htau, hallowed, bytes, hsome, hfrom'⟩
        cases hsome
        -- Two hellos that are read from the same bytes are one.
        obtain rfl := hfrom.unique hfrom'
        exact ⟨rfl, hallowed.2, by rw [← htau]⟩

/-- A client whose opening fails ends its preprocessing there. -/
theorem preprocClientWith_of_opening (blake3 : Blake3) (pk : Option (VerifiedKey S)) (ots : ClientOts)
    (received : ServerMessages S stark) {error : PreprocError stark}
    (h : clientOpening stark uid tau pk.isSome received.echoed = .error error) :
    preprocClientWith blake3 pk tau uid ots received = some (.error error) := by
  unfold clientOpening clientHello at h
  unfold preprocClientWith
  -- The preprocessing makes the checks of the opening in its order, so each error is its first.
  by_cases hzero : tau = 0
  · rw [if_pos hzero] at h ⊢
    cases h
    rfl
  rw [if_neg hzero] at h ⊢
  by_cases hsmall : pk.isSome = true ∧ evaluationsFor tau = 0
  · rw [if_pos hsmall] at h ⊢
    cases h
    rfl
  rw [if_neg hsmall] at h ⊢
  dsimp only at h
  cases hechoed : received.echoed with
  | none =>
    rw [hechoed] at h
    cases h
    rfl
  | some echoed =>
    rw [hechoed] at h
    dsimp only at h ⊢
    unfold clientCheck at h
    cases hdecode : decodeTau stark echoed with
    | error error =>
      rw [hdecode] at h
      cases h
      rfl
    | ok theirs =>
      rw [hdecode] at h
      dsimp only at h ⊢
      by_cases htau : theirs ≠ tau
      · rw [if_pos htau] at h ⊢
        cases h
        rfl
      · rw [if_neg htau] at h
        cases h

end Accepts

/-! ## Runs -/

/-- Where a side of the opening is. What it checks after it has answered is an `α`. -/
inductive Phase (stark : Stark Val) (α : Type) where
  /-- Nothing done. -/
  | start
  /-- Waiting for the other side's message. -/
  | waiting
  /-- Answered, and about to check. -/
  | checking (message : α)
  /-- Past the opening. -/
  | opened (agreed : Opened)
  /-- Ended with an error. -/
  | failed (error : PreprocError stark)
  /-- Abandoned, or its stream failed. -/
  | stopped

namespace Phase

variable {stark : Stark Val} {α : Type}

/-- Where a check leads. -/
def ofResult : Except (PreprocError stark) Opened → Phase stark α
  | .error error => .failed error
  | .ok agreed => .opened agreed

/-- In the opening. -/
def Underway : Phase stark α → Prop
  | .start | .waiting | .checking _ => True
  | .opened _ | .failed _ | .stopped => False

/-- Ended: the other side's stream closes when all is read. -/
def Ended : Phase stark α → Prop
  | .failed _ | .stopped => True
  | .start | .waiting | .checking _ | .opened _ => False

/-- The most steps that a side has left. -/
def left : Phase stark α → ℕ
  | .start => 3
  | .waiting => 2
  | .checking _ => 1
  | .opened _ | .failed _ | .stopped => 0

@[simp] theorem left_start : (start : Phase stark α).left = 3 := rfl

@[simp] theorem left_waiting : (waiting : Phase stark α).left = 2 := rfl

@[simp] theorem left_checking (message : α) : (checking message : Phase stark α).left = 1 := rfl

@[simp] theorem left_failed (error : PreprocError stark) : (failed error : Phase stark α).left = 0 :=
  rfl

@[simp] theorem left_stopped : (stopped : Phase stark α).left = 0 := rfl

@[simp] theorem left_ofResult (result : Except (PreprocError stark) Opened) :
    (ofResult result : Phase stark α).left = 0 := by
  cases result <;> rfl

theorem Underway.left_pos {phase : Phase stark α} (h : phase.Underway) : 0 < phase.left := by
  cases phase <;> first | exact Nat.succ_pos _ | exact h.elim

end Phase

/-- Both sides and the messages in flight. -/
structure Opening (stark : Stark Val) where
  /-- The client. It checks with its answer in hand, so nothing is between the two. -/
  client : Phase stark Empty
  /-- The server. -/
  server : Phase stark Hello
  /-- What the client sent and the server has not read. -/
  to_server : List (List UInt8)
  /-- What the server sent and the client has not read. -/
  to_client : List (List UInt8)

namespace Opening

variable {stark : Stark Val}

/-- Nothing done and nothing sent. -/
def new (stark : Stark Val) : Opening stark := ⟨.start, .start, [], []⟩

section Runs

variable (uid : Uid) (tau_c : UInt64) (voprf : Bool) (tau_s : UInt64)

/-- A step of one side. -/
inductive Step : Opening stark → Opening stark → Prop
  /-- The client refuses its own τ. -/
  | client_refuses (s : Opening stark) (error : PreprocError stark) (hphase : s.client = .start)
      (hhello : clientHello stark uid tau_c.toNat voprf = .error error) :
      Step s { s with client := .failed error }
  /-- The client sends its hello. -/
  | client_sends (s : Opening stark) (hello : List UInt8) (hphase : s.client = .start)
      (hhello : clientHello stark uid tau_c.toNat voprf = .ok hello) :
      Step s { s with client := .waiting, to_server := s.to_server ++ [hello] }
  /-- The client checks the echo. -/
  | client_checks (s : Opening stark) (echoed : List UInt8) (rest : List (List UInt8))
      (hphase : s.client = .waiting) (hqueue : s.to_client = echoed :: rest) :
      Step s { s with
        client := .ofResult (clientCheck stark uid tau_c.toNat voprf echoed)
        to_client := rest }
  /-- The client waits for a server that has ended. -/
  | client_closed (s : Opening stark) (hphase : s.client = .waiting) (hqueue : s.to_client = [])
      (hended : s.server.Ended) : Step s { s with client := .failed .UnexpectedClose }
  /-- The client stops. -/
  | client_stops (s : Opening stark) (hphase : s.client.Underway) : Step s { s with client := .stopped }
  /-- The server refuses its own τ. -/
  | server_refuses (s : Opening stark) (hphase : s.server = .start) (hzero : tau_s.toNat = 0) :
      Step s { s with server := .failed .ZeroTau }
  /-- The server waits for the hello. -/
  | server_listens (s : Opening stark) (hphase : s.server = .start) (hpos : tau_s.toNat ≠ 0) :
      Step s { s with server := .waiting }
  /-- The server refuses a malformed hello. -/
  | server_refuses_hello (s : Opening stark) (hello : List UInt8) (rest : List (List UInt8))
      (error : PreprocError stark) (hphase : s.server = .waiting)
      (hqueue : s.to_server = hello :: rest) (hread : readHello stark hello = some (.error error)) :
      Step s { s with server := .failed error, to_server := rest }
  /-- The server reads a hello and echoes its own τ. -/
  | server_echoes (s : Opening stark) (hello : List UInt8) (rest : List (List UInt8)) (h : Hello)
      (hphase : s.server = .waiting) (hqueue : s.to_server = hello :: rest)
      (hread : readHello stark hello = some (.ok h)) :
      Step s { s with
        server := .checking h
        to_server := rest
        to_client := s.to_client ++ [encodeTau tau_s.toNat] }
  /-- The server checks what it read. -/
  | server_checks (s : Opening stark) (h : Hello) (hphase : s.server = .checking h) :
      Step s { s with server := .ofResult (serverCheck stark tau_s.toNat h) }
  /-- The server waits for a client that has ended. -/
  | server_closed (s : Opening stark) (hphase : s.server = .waiting) (hqueue : s.to_server = [])
      (hended : s.client.Ended) : Step s { s with server := .failed .UnexpectedClose }
  /-- The server stops. -/
  | server_stops (s : Opening stark) (hphase : s.server.Underway) : Step s { s with server := .stopped }

/-- What a run keeps: what is in flight is what the honest sides send, and a side that got past the
opening did so with what both sides asked for. -/
structure Agreed (s : Opening stark) : Prop where
  hello : ∀ m ∈ s.to_server, clientHello stark uid tau_c.toNat voprf = .ok m
  waiting : s.client = .waiting → TauAllowed tau_c.toNat voprf
  echo : ∀ m ∈ s.to_client, m = encodeTau tau_s.toNat
  checking : ∀ h, s.server = .checking h →
    h = ⟨uid, tau_c.toNat, voprf⟩ ∧ TauAllowed tau_c.toNat voprf
  client : ∀ o, s.client = .opened o →
    o = ⟨uid, tau_c.toNat, voprf⟩ ∧ tau_s = tau_c ∧ TauAllowed tau_c.toNat voprf
  server : ∀ o, s.server = .opened o →
    o = ⟨uid, tau_c.toNat, voprf⟩ ∧ tau_s = tau_c ∧ TauAllowed tau_c.toNat voprf

variable {uid tau_c voprf tau_s}

theorem agreed_new : Agreed uid tau_c voprf tau_s (new stark) where
  hello _ hm := by cases hm
  waiting h := by cases h
  echo _ hm := by cases hm
  checking _ h := by cases h
  client _ h := by cases h
  server _ h := by cases h

theorem ofResult_eq_opened {α : Type} {result : Except (PreprocError stark) Opened} {o : Opened}
    (h : (Phase.ofResult result : Phase stark α) = .opened o) : result = .ok o := by
  cases result with
  | error error => cases h
  | ok agreed => cases h; rfl

/-- Both directions of the wire: an honest hello reads as what it says. -/
theorem readHello_honest {hello : List UInt8}
    (h : clientHello stark uid tau_c.toNat voprf = .ok hello) :
    readHello stark hello = some (.ok ⟨uid, tau_c.toNat, voprf⟩) := by
  obtain ⟨-, rfl⟩ := clientHello_eq_ok h
  exact readHello_clientHello stark uid tau_c voprf

theorem step_agreed {s s' : Opening stark} (h : Agreed uid tau_c voprf tau_s s)
    (hstep : Step uid tau_c voprf tau_s s s') : Agreed uid tau_c voprf tau_s s' := by
  cases hstep with
  | client_refuses error hphase hhello =>
    exact ⟨h.hello, fun hc => (by cases hc), h.echo, h.checking, fun _ ho => (by cases ho), h.server⟩
  | client_sends hello hphase hhello =>
    refine ⟨fun m hm => ?_, fun _ => (clientHello_eq_ok hhello).1, h.echo, h.checking,
      fun _ ho => (by cases ho), h.server⟩
    rcases List.mem_append.mp hm with hm | hm
    · exact h.hello m hm
    · rw [List.mem_singleton.mp hm]
      exact hhello
  | client_checks echoed rest hphase hqueue =>
    refine ⟨h.hello, fun hc => ?_, fun m hm => ?_, h.checking, fun o ho => ?_, h.server⟩
    · exact h.waiting hphase
    · apply h.echo m
      rw [hqueue]
      exact List.mem_cons_of_mem _ hm
    · -- The echo is the server's τ, and passes the check as the client's.
      have hecho : echoed = encodeTau tau_s.toNat :=
        h.echo echoed (by rw [hqueue]; exact List.mem_cons_self)
      obtain ⟨hdecode, rfl⟩ := clientCheck_eq_ok.mp (ofResult_eq_opened ho)
      rw [hecho, decodeTau_encodeTau] at hdecode
      exact ⟨rfl, UInt64.toNat_inj.mp (Except.ok.inj hdecode), h.waiting hphase⟩
  | client_closed hphase hqueue hended =>
    exact ⟨h.hello, fun hc => (by cases hc), h.echo, h.checking, fun _ ho => (by cases ho), h.server⟩
  | client_stops hphase =>
    exact ⟨h.hello, fun hc => (by cases hc), h.echo, h.checking, fun _ ho => (by cases ho), h.server⟩
  | server_refuses hphase hzero =>
    exact ⟨h.hello, h.waiting, h.echo, fun _ hs => (by cases hs), h.client, fun _ ho => (by cases ho)⟩
  | server_listens hphase hpos =>
    exact ⟨h.hello, h.waiting, h.echo, fun _ hs => (by cases hs), h.client, fun _ ho => (by cases ho)⟩
  | server_refuses_hello hello rest error hphase hqueue hread =>
    -- Whatever reaches the server is the client's own hello, which is read back.
    have hhello := h.hello hello (by rw [hqueue]; exact List.mem_cons_self)
    rw [readHello_honest hhello] at hread
    cases hread
  | server_echoes hello rest message hphase hqueue hread =>
    have hhello := h.hello hello (by rw [hqueue]; exact List.mem_cons_self)
    refine ⟨fun m hm => ?_, h.waiting, fun m hm => ?_, fun message' hs => ?_, h.client,
      fun _ ho => (by cases ho)⟩
    · apply h.hello m
      rw [hqueue]
      exact List.mem_cons_of_mem _ hm
    · rcases List.mem_append.mp hm with hm | hm
      · exact h.echo m hm
      · exact List.mem_singleton.mp hm
    · rw [readHello_honest hhello] at hread
      cases hread
      cases hs
      exact ⟨rfl, (clientHello_eq_ok hhello).1⟩
  | server_checks message hphase =>
    refine ⟨h.hello, h.waiting, h.echo, fun message' hs => ?_, h.client, fun o ho => ?_⟩
    · generalize serverCheck stark tau_s.toNat message = result at hs
      cases result <;> cases hs
    · obtain ⟨rfl, hallowed⟩ := h.checking message hphase
      obtain ⟨htau, -, rfl⟩ := serverCheck_eq_ok.mp (ofResult_eq_opened ho)
      have htau' : tau_c.toNat = tau_s.toNat := htau
      exact ⟨by rw [htau'], (UInt64.toNat_inj.mp htau').symm, hallowed⟩
  | server_closed hphase hqueue hended =>
    exact ⟨h.hello, h.waiting, h.echo, fun _ hs => (by cases hs), h.client, fun _ ho => (by cases ho)⟩
  | server_stops hphase =>
    exact ⟨h.hello, h.waiting, h.echo, fun _ hs => (by cases hs), h.client, fun _ ho => (by cases ho)⟩

theorem reachable_agreed {s : Opening stark}
    (h : Reachable (Step uid tau_c voprf tau_s) (new stark) s) : Agreed uid tau_c voprf tau_s s :=
  h.invariant agreed_new fun _ _ _ hinv hstep => step_agreed hinv hstep

/-- Each step leaves its side fewer steps. -/
theorem step_left {s s' : Opening stark} (hstep : Step uid tau_c voprf tau_s s s') :
    s'.client.left + s'.server.left < s.client.left + s.server.left := by
  cases hstep with
  | client_refuses error hphase => simp [hphase]
  | client_sends hello hphase => simp [hphase]
  | client_checks echoed rest hphase => simp [hphase]
  | client_closed hphase => simp [hphase]
  | client_stops hphase => simp [hphase.left_pos]
  | server_refuses hphase => simp [hphase]
  | server_listens hphase => simp [hphase]
  | server_refuses_hello hello rest error hphase => simp [hphase]
  | server_echoes hello rest message hphase => simp [hphase]
  | server_checks message hphase => simp [hphase]
  | server_closed hphase => simp [hphase]
  | server_stops hphase => simp [hphase.left_pos]

/-- No run of the opening goes on for ever. -/
theorem noEndlessRun (stark : Stark Val) (uid : Uid) (tau_c : UInt64) (voprf : Bool)
    (tau_s : UInt64) : NoEndlessRun (Step uid tau_c voprf tau_s : Opening stark → _ → Prop) :=
  noEndlessRun_of_measure (fun s => s.client.left + s.server.left) fun _ _ => step_left

/-- What a run keeps where the two τ differ. Until the server reads the hello, the hello is the only
message in flight, and after that the echo is, until the client reads it; whoever ends, ends for the
difference or because the other side stopped. -/
structure Mismatched (tau_c tau_s : UInt64) (s : Opening stark) : Prop where
  /-- The server answers once it has read. -/
  unanswered : s.server = .start ∨ s.server = .waiting → s.to_client = []
  /-- The client asks once. -/
  silent : s.client = .start → s.to_server = [] ∧ (∀ h, s.server ≠ .checking h) ∧
    ∀ e, s.server ≠ .failed e
  /-- What the client asked is there until the server reads it. -/
  asked : s.client = .waiting → s.server = .start ∨ s.server = .waiting → ∃ hello, s.to_server = [hello]
  /-- What the server answered is there until the client reads it. -/
  answered : s.client = .waiting →
    (∃ h, s.server = .checking h) ∨ (∃ e, s.server = .failed e) → ∃ echoed, s.to_client = [echoed]
  client : ∀ e, s.client = .failed e →
    (e = .TauMismatch tau_c.toNat tau_s.toNat ∧ s.server ≠ .start ∧ s.server ≠ .waiting) ∨
      (e = .UnexpectedClose ∧ s.server = .stopped)
  server : ∀ e, s.server = .failed e → e = .TauMismatch tau_s.toNat tau_c.toNat ∨
    (e = .UnexpectedClose ∧ s.client = .stopped)

theorem mismatched_new : Mismatched tau_c tau_s (new stark) where
  unanswered _ := rfl
  silent _ := ⟨rfl, fun _ h => (by cases h), fun _ h => (by cases h)⟩
  asked h := by cases h
  answered h := by cases h
  client _ h := by cases h
  server _ h := by cases h

/-- The echo of another τ does not pass. -/
theorem clientCheck_of_ne (stark : Stark Val) (uid : Uid) (voprf : Bool) (h : tau_c ≠ tau_s) :
    clientCheck stark uid tau_c.toNat voprf (encodeTau tau_s.toNat) =
      .error (.TauMismatch tau_c.toNat tau_s.toNat) := by
  unfold clientCheck
  rw [decodeTau_encodeTau]
  exact if_pos fun heq => h (UInt64.toNat_inj.mp heq).symm

/-- The hello of another τ does not pass. -/
theorem serverCheck_of_ne (stark : Stark Val) (uid : Uid) (voprf : Bool) (h : tau_c ≠ tau_s) :
    serverCheck stark tau_s.toNat ⟨uid, tau_c.toNat, voprf⟩ =
      .error (.TauMismatch tau_s.toNat tau_c.toNat) := by
  unfold serverCheck
  exact if_pos fun heq => h (UInt64.toNat_inj.mp heq)

/-- A client fails only after a server that has read the hello, or has stopped. -/
theorem Mismatched.client_not_failed {s : Opening stark} (h : Mismatched tau_c tau_s s)
    (hserver : s.server = .start ∨ s.server = .waiting) (e : PreprocError stark) : s.client ≠ .failed e := by
  intro he
  rcases h.client e he with ⟨-, hstart, hwaiting⟩ | ⟨-, hstopped⟩
  · exact hserver.elim hstart hwaiting
  · rw [hstopped] at hserver
    rcases hserver with hserver | hserver <;> cases hserver

/-- A server that has ended with nothing in flight to a client that waits has stopped: one that
failed has answered. -/
theorem Mismatched.server_stopped {s : Opening stark} (h : Mismatched tau_c tau_s s)
    (hclient : s.client = .waiting) (hqueue : s.to_client = []) (hended : s.server.Ended) :
    s.server = .stopped := by
  cases hs : s.server with
  | failed e =>
    obtain ⟨echoed, hecho⟩ := h.answered hclient (Or.inr ⟨e, hs⟩)
    rw [hecho] at hqueue
    cases hqueue
  | stopped => rfl
  | start | waiting | checking | opened =>
    rw [hs] at hended
    exact hended.elim

/-- A client that has ended before a server that waits for its hello has stopped. -/
theorem Mismatched.client_stopped {s : Opening stark} (h : Mismatched tau_c tau_s s)
    (hserver : s.server = .waiting) (hended : s.client.Ended) : s.client = .stopped := by
  cases hc : s.client with
  | failed e => exact absurd hc (h.client_not_failed (Or.inr hserver) e)
  | stopped => rfl
  | start | waiting | opened =>
    rw [hc] at hended
    exact hended.elim
  | checking message => exact message.elim

/-- Every step keeps this, whichever side takes it. -/
theorem step_mismatched (hne : tau_c ≠ tau_s) (hallowed : TauAllowed tau_c.toNat voprf)
    (hpos : tau_s ≠ 0) {s s' : Opening stark} (hagreed : Agreed uid tau_c voprf tau_s s)
    (h : Mismatched tau_c tau_s s) (hstep : Step uid tau_c voprf tau_s s s') :
    Mismatched tau_c tau_s s' := by
  cases hstep with
  | client_refuses error hphase hhello =>
    rw [clientHello_of_allowed hallowed] at hhello
    cases hhello
  | client_sends hello hphase hhello =>
    obtain ⟨hempty, hchecking, hfailed⟩ := h.silent hphase
    refine ⟨h.unanswered, fun hc => (by cases hc), fun _ _ => ⟨hello, ?_⟩, fun _ hs => ?_,
      fun _ he => (by cases he), fun e he => absurd he (hfailed e)⟩
    · change s.to_server ++ [hello] = [hello]
      rw [hempty, List.nil_append]
    · rcases hs with ⟨message, hs⟩ | ⟨e, hs⟩
      · exact absurd hs (hchecking message)
      · exact absurd hs (hfailed e)
  | client_checks echoed rest hphase hqueue =>
    have hecho : echoed = encodeTau tau_s.toNat :=
      hagreed.echo echoed (by rw [hqueue]; exact List.mem_cons_self)
    -- There is an echo, so the server has read the hello.
    have hread : ¬ (s.server = .start ∨ s.server = .waiting) := by
      intro hs
      rw [h.unanswered hs] at hqueue
      cases hqueue
    rw [hecho, clientCheck_of_ne stark uid voprf hne]
    refine ⟨fun hs => absurd hs hread, fun hc => (by cases hc), fun hc => (by cases hc),
      fun hc => (by cases hc), fun e he => ?_, fun e he => ?_⟩
    · cases he
      exact Or.inl ⟨rfl, fun hs => hread (Or.inl hs), fun hs => hread (Or.inr hs)⟩
    · rcases h.server e he with heq | ⟨-, hstopped⟩
      · exact Or.inl heq
      · rw [hphase] at hstopped
        cases hstopped
  | client_closed hphase hqueue hended =>
    have hstopped := h.server_stopped hphase hqueue hended
    refine ⟨h.unanswered, fun hc => (by cases hc), fun hc => (by cases hc), fun hc => (by cases hc),
      fun e he => ?_, fun e he => ?_⟩
    · cases he
      exact Or.inr ⟨rfl, hstopped⟩
    · rw [hstopped] at he
      cases he
  | client_stops hphase =>
    refine ⟨h.unanswered, fun hc => (by cases hc), fun hc => (by cases hc), fun hc => (by cases hc),
      fun e he => (by cases he), fun e he => ?_⟩
    exact (h.server e he).imp_right fun hclose => ⟨hclose.1, rfl⟩
  | server_refuses hphase hzero =>
    exact absurd (UInt64.toNat_inj.mp (hzero : tau_s.toNat = (0 : UInt64).toNat)) hpos
  | server_listens hphase _ =>
    refine ⟨fun _ => h.unanswered (Or.inl hphase), fun hc => ⟨(h.silent hc).1, fun _ hs => (by cases hs),
      fun _ hs => (by cases hs)⟩, fun hc _ => h.asked hc (Or.inl hphase), fun _ hs => ?_,
      fun e he => ?_, fun e he => (by cases he)⟩
    · rcases hs with ⟨_, hs⟩ | ⟨_, hs⟩ <;> cases hs
    · exact absurd he (h.client_not_failed (Or.inl hphase) e)
  | server_refuses_hello hello rest error hphase hqueue hread =>
    rw [readHello_honest (hagreed.hello hello (by rw [hqueue]; exact List.mem_cons_self))] at hread
    cases hread
  | server_echoes hello rest message hphase hqueue hread =>
    have hempty := h.unanswered (Or.inr hphase)
    refine ⟨fun hs => (by rcases hs with hs | hs <;> cases hs), fun hc => ?_,
      fun _ hs => (by rcases hs with hs | hs <;> cases hs), fun _ _ => ⟨encodeTau tau_s.toNat, ?_⟩,
      fun e he => ?_, fun e he => (by cases he)⟩
    · rw [(h.silent hc).1] at hqueue
      cases hqueue
    · change s.to_client ++ [encodeTau tau_s.toNat] = [encodeTau tau_s.toNat]
      rw [hempty, List.nil_append]
    · exact absurd he (h.client_not_failed (Or.inr hphase) e)
  | server_checks message hphase =>
    obtain ⟨rfl, -⟩ := hagreed.checking message hphase
    rw [serverCheck_of_ne stark uid voprf hne]
    refine ⟨fun hs => (by rcases hs with hs | hs <;> cases hs), fun hc => ?_,
      fun _ hs => (by rcases hs with hs | hs <;> cases hs),
      fun hc _ => h.answered hc (Or.inl ⟨_, hphase⟩), fun e he => ?_, fun e he => ?_⟩
    · exact absurd hphase ((h.silent hc).2.1 _)
    · rcases h.client e he with ⟨heq, -, -⟩ | ⟨-, hstopped⟩
      · exact Or.inl ⟨heq, fun hs => (by cases hs), fun hs => (by cases hs)⟩
      · rw [hphase] at hstopped
        cases hstopped
    · cases he
      exact Or.inl rfl
  | server_closed hphase hqueue hended =>
    have hstopped := h.client_stopped hphase hended
    have hnot : ∀ {phase : Phase stark Empty}, s.client = phase → phase = .stopped :=
      fun hc => hc.symm.trans hstopped
    refine ⟨fun hs => (by rcases hs with hs | hs <;> cases hs), fun hc => (by cases hnot hc),
      fun hc => (by cases hnot hc), fun hc => (by cases hnot hc), fun e he => (by cases hnot he),
      fun e he => ?_⟩
    cases he
    exact Or.inr ⟨rfl, hstopped⟩
  | server_stops hphase =>
    refine ⟨fun hs => (by rcases hs with hs | hs <;> cases hs), fun hc => ⟨(h.silent hc).1,
      fun _ hs => (by cases hs), fun _ hs => (by cases hs)⟩,
      fun _ hs => (by rcases hs with hs | hs <;> cases hs), fun _ hs => ?_, fun e he => ?_,
      fun e he => (by cases he)⟩
    · rcases hs with ⟨_, hs⟩ | ⟨_, hs⟩ <;> cases hs
    · rcases h.client e he with ⟨heq, -, -⟩ | ⟨heq, -⟩
      · exact Or.inl ⟨heq, fun hs => (by cases hs), fun hs => (by cases hs)⟩
      · exact Or.inr ⟨heq, rfl⟩

theorem reachable_mismatched (hne : tau_c ≠ tau_s) (hallowed : TauAllowed tau_c.toNat voprf)
    (hpos : tau_s ≠ 0) {s : Opening stark}
    (h : Reachable (Step uid tau_c voprf tau_s) (new stark) s) : Mismatched tau_c tau_s s :=
  h.invariant mismatched_new fun _ _ hreach hinv hstep =>
    step_mismatched hne hallowed hpos (reachable_agreed hreach) hinv hstep

/-- While no side has stopped and one is in the opening, a side can take a step other than to
stop. -/
theorem mismatched_progress (hne : tau_c ≠ tau_s) (hallowed : TauAllowed tau_c.toNat voprf)
    (hpos : tau_s ≠ 0) {s : Opening stark} (hagreed : Agreed uid tau_c voprf tau_s s)
    (h : Mismatched tau_c tau_s s) (hclient : s.client ≠ .stopped) (hserver : s.server ≠ .stopped)
    (hunderway : s.client.Underway ∨ s.server.Underway) :
    ∃ s', Step uid tau_c voprf tau_s s s' ∧ s'.client ≠ .stopped ∧ s'.server ≠ .stopped := by
  have hresult : ∀ {α : Type} (result : Except (PreprocError stark) Opened),
      (Phase.ofResult result : Phase stark α) ≠ .stopped := by
    rintro α (error | agreed) hstopped <;> cases hstopped
  cases hs : s.server with
  | start =>
    refine ⟨_, .server_listens s hs fun hzero => hpos ?_, hclient, fun hs => (by cases hs)⟩
    exact UInt64.toNat_inj.mp (hzero : tau_s.toNat = (0 : UInt64).toNat)
  | checking message => exact ⟨_, .server_checks s message hs, hclient, hresult _⟩
  | opened agreed => exact absurd (hagreed.server agreed hs).2.1.symm hne
  | stopped => exact absurd hs hserver
  | waiting =>
    cases hc : s.client with
    | start =>
      exact ⟨_, .client_sends s _ hc (clientHello_of_allowed hallowed), fun hc => (by cases hc),
        fun hstopped => hserver hstopped⟩
    | waiting =>
      obtain ⟨hello, hqueue⟩ := h.asked hc (Or.inr hs)
      have hread := readHello_honest (hagreed.hello hello (by rw [hqueue]; exact List.mem_cons_self))
      exact ⟨_, .server_echoes s hello [] _ hs hqueue hread, hclient, fun hs => (by cases hs)⟩
    | checking message => exact message.elim
    | opened agreed => exact absurd (hagreed.client agreed hc).2.1.symm hne
    | stopped => exact absurd hc hclient
    | failed e => exact absurd hc (h.client_not_failed (Or.inr hs) e)
  | failed e =>
    -- The server is done, so the client is not.
    cases hc : s.client with
    | start => exact absurd hs ((h.silent hc).2.2 e)
    | waiting =>
      obtain ⟨echoed, hqueue⟩ := h.answered hc (Or.inr ⟨e, hs⟩)
      exact ⟨_, .client_checks s echoed [] hc hqueue, hresult _, fun hstopped => hserver hstopped⟩
    | checking message => exact message.elim
    | opened agreed => exact absurd (hagreed.client agreed hc).2.1.symm hne
    | stopped => exact absurd hc hclient
    | failed e' =>
      rw [hc, hs] at hunderway
      exact (hunderway.elim id id).elim

/-- Where no side stopped and no step other than to stop is left, both sides failed for the
difference. -/
theorem mismatched_ended (hne : tau_c ≠ tau_s) (hallowed : TauAllowed tau_c.toNat voprf)
    (hpos : tau_s ≠ 0) {s : Opening stark} (hagreed : Agreed uid tau_c voprf tau_s s)
    (h : Mismatched tau_c tau_s s) (hclient : s.client ≠ .stopped) (hserver : s.server ≠ .stopped)
    (hlast : ∀ s', Step uid tau_c voprf tau_s s s' → s'.client = .stopped ∨ s'.server = .stopped) :
    s.client = .failed (.TauMismatch tau_c.toNat tau_s.toNat) ∧
      s.server = .failed (.TauMismatch tau_s.toNat tau_c.toNat) := by
  -- A side that is still underway could move without stopping.
  have hover : ¬ (s.client.Underway ∨ s.server.Underway) := by
    intro hunderway
    obtain ⟨s', hstep, hclient', hserver'⟩ :=
      mismatched_progress hne hallowed hpos hagreed h hclient hserver hunderway
    exact (hlast s' hstep).elim hclient' hserver'
  -- Neither side has opened, as both would then have one τ.
  constructor
  · cases hc : s.client with
    | start | waiting | checking => exact absurd (Or.inl (by rw [hc]; trivial)) hover
    | opened agreed => exact absurd (hagreed.client agreed hc).2.1.symm hne
    | stopped => exact absurd hc hclient
    | failed e =>
      rcases h.client e hc with ⟨rfl, -⟩ | ⟨-, hstopped⟩
      · rfl
      · exact absurd hstopped hserver
  · cases hs : s.server with
    | start | waiting | checking => exact absurd (Or.inr (by rw [hs]; trivial)) hover
    | opened agreed => exact absurd (hagreed.server agreed hs).2.1.symm hne
    | stopped => exact absurd hs hserver
    | failed e =>
      rcases h.server e hs with rfl | ⟨-, hstopped⟩
      · rfl
      · exact absurd hstopped hclient

end Runs

end Opening

/-- The two sides agree before any OT. In every state that a run of the opening reaches, a side that
got past it holds the client's uid, τ and mode, τ is that of both and allowed in the mode. Where the
two τ differ, no side gets past, each side ends for the difference or because the other stopped, and
a run without stops ends with both sides having failed for the difference; no run goes on for ever.
And whatever the other side sends, a side goes on only for the messages that an honest other side
with its own τ could have sent. -/
theorem handshake_agrees (stark : Stark Val) (uid : Uid) (tau_c : UInt64) (voprf : Bool)
    (tau_s : UInt64) :
    (∀ s : Opening stark,
      Reachable (Opening.Step uid tau_c voprf tau_s) (Opening.new stark) s →
      (∀ o, s.client = .opened o ∨ s.server = .opened o → o = ⟨uid, tau_c.toNat, voprf⟩ ∧
        tau_c = tau_s ∧ 1 ≤ tau_c.toNat ∧ (voprf = true → H_ROWS ≤ tau_c.toNat)) ∧
      (tau_c ≠ tau_s → TauAllowed tau_c.toNat voprf → tau_s ≠ 0 →
        (∀ e, s.client = .failed e → e = .TauMismatch tau_c.toNat tau_s.toNat ∨
          (e = .UnexpectedClose ∧ s.server = .stopped)) ∧
        (∀ e, s.server = .failed e → e = .TauMismatch tau_s.toNat tau_c.toNat ∨
          (e = .UnexpectedClose ∧ s.client = .stopped)) ∧
        (s.client ≠ .stopped → s.server ≠ .stopped →
          (∀ s', Opening.Step uid tau_c voprf tau_s s s' →
            s'.client = .stopped ∨ s'.server = .stopped) →
          s.client = .failed (.TauMismatch tau_c.toNat tau_s.toNat) ∧
            s.server = .failed (.TauMismatch tau_s.toNat tau_c.toNat)))) ∧
    NoEndlessRun (Opening.Step uid tau_c voprf tau_s : Opening stark → _ → Prop) ∧
    (∀ received, ∃ echoed result,
      serverOpening stark tau_s.toNat received = some (echoed, result) ∧
      ∀ o, result = .ok o ↔ o.tau = tau_s.toNat ∧ TauAllowed tau_s.toNat o.voprf ∧
        ∃ hello, received = some hello ∧
          Hello.ReadFrom ⟨o.uid, tau_s.toNat, o.voprf⟩ hello) ∧
    (∀ received o, clientOpening stark uid tau_c.toNat voprf received = .ok o ↔
      TauAllowed tau_c.toNat voprf ∧ o = ⟨uid, tau_c.toNat, voprf⟩ ∧
      ∃ echoed, received = some echoed ∧ echoed.length = 8 ∧ leToNat echoed = tau_c.toNat) ∧
    ∀ (blake3 : Blake3) (pk : Option (VerifiedKey S)) (ots : ClientOts)
      (received : ServerMessages S stark) (error : PreprocError stark),
      clientOpening stark uid tau_c.toNat pk.isSome received.echoed = .error error →
      preprocClientWith blake3 pk tau_c.toNat uid ots received = some (.error error) := by
  refine ⟨fun s hreach => ⟨fun o ho => ?_, fun hne hallowed hpos => ?_⟩,
    Opening.noEndlessRun stark uid tau_c voprf tau_s, serverOpening_eq_ok stark tau_s.toNat,
    fun received o => clientOpening_eq_ok,
    fun blake3 pk ots received error => preprocClientWith_of_opening blake3 pk ots received⟩
  · -- Safety: a side that opens has checked the other's τ against its own.
    have hagreed := Opening.reachable_agreed hreach
    obtain ⟨heq, htau, hallowed⟩ := ho.elim (hagreed.client o) (hagreed.server o)
    exact ⟨heq, htau.symm, hallowed.1, hallowed.2⟩
  · -- Two τ: no side opens, and each names the mismatch unless the other stopped.
    have hagreed := Opening.reachable_agreed hreach
    have h := Opening.reachable_mismatched hne hallowed hpos hreach
    refine ⟨fun e he => (h.client e he).imp_left And.left, h.server,
      fun hclient hserver hlast => ?_⟩
    exact Opening.mismatched_ended hne hallowed hpos hagreed h hclient hserver hlast

end PoolOprf
