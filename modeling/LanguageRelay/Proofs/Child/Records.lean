import LanguageRelay.Proofs.Child.Keeping
import Mathlib.Data.List.Forall2
/-!
# The record of a child

What a handler was given, what was sent and when the connection closed are
read off the record (`Deed`). `Recorded` says what the record of a child is
like at any time: what a handler was given are the messages taken after it
was registered, and nothing is handed on or written after the closing.

The record grows by a few deeds at a time. That a handful of deeds `Follows`
what went before is a matter of these deeds alone; `Recorded.append` does
the rest.
-/

namespace LanguageRelay

namespace Child

open Service Frame

/-! ## Reading the record -/

namespace Deed

/-- What the child wrote to its output. -/
@[simp] def bytes : Deed → List UInt8
  | came bytes => bytes
  | _ => []

/-- What was read of a frame. -/
@[simp] def reading? : Deed → Option (Except ProtocolFault Json)
  | took reading => some reading
  | _ => none

/-- The message in a frame that could be read. -/
@[simp] def message? : Deed → Option Json
  | took (.ok message) => some message
  | _ => none

/-- What a handler was given. -/
@[simp] def handedTo? (hearer : Nat) : Deed → Option Json
  | handed i message _ => if i = hearer then some message else none
  | _ => none

/-- The cause of the closing. -/
@[simp] def cause? : Deed → Option (Option Closure)
  | shut cause => some cause
  | _ => none

/-- The cause a handler was told. -/
@[simp] def toldTo? (listener : Nat) : Deed → Option (Option Closure)
  | told i cause => if i = listener then some cause else none
  | _ => none

@[simp] def asked? : Deed → Option Json
  | asked message => some message
  | _ => none

/-- What became of a command: the line written for it, or why there is none. -/
@[simp] def answer? : Deed → Option (Except Failure (List Char))
  | wrote line => some (.ok line)
  | refused cause => some (.error cause)
  | _ => none

@[simp] def isJoined : Deed → Bool
  | joined => true
  | _ => false

@[simp] def isEnlisted : Deed → Bool
  | enlisted => true
  | _ => false

@[simp] def isShut : Deed → Bool
  | shut _ => true
  | _ => false

/-- Something was taken off the output, handed on or written to the input. -/
@[simp] def isActive : Deed → Bool
  | took _ | handed _ _ _ | wrote _ => true
  | _ => false

end Deed

/-- The deeds after the `i`-th of those that are marked. -/
def past (mark : Deed → Bool) : Nat → List Deed → List Deed
  | _, [] => []
  | 0, d :: rest => if mark d then rest else past mark 0 rest
  | i + 1, d :: rest => if mark d then past mark i rest else past mark (i + 1) rest

section
variable {mark : Deed → Bool}

theorem past_append (i : Nat) (as bs : List Deed) :
    past mark i (as ++ bs)
      = if i < as.countP mark then past mark i as ++ bs else past mark (i - as.countP mark) bs := by
  induction as generalizing i with
  | nil => simp
  | cons d as ih =>
    cases hd : mark d with
    | false =>
      have hpast : ∀ ds, past mark i (d :: ds) = past mark i ds := by
        intro ds
        cases i <;> simp [past, hd]
      rw [List.cons_append, hpast, hpast, List.countP_cons_of_neg (by simp [hd]), ih i]
    | true =>
      cases i with
      | zero => simp [past, hd]
      | succ i => simpa [past, hd] using ih i

/-- After fewer marks than that nothing comes. -/
theorem past_of_countP_le {i : Nat} {ds : List Deed} (h : ds.countP mark ≤ i) :
    past mark i ds = [] := by
  induction ds generalizing i with
  | nil => cases i <;> rfl
  | cons d ds ih =>
    cases hd : mark d with
    | false =>
      simp only [List.countP_cons, hd, Bool.false_eq_true, if_false, Nat.add_zero] at h
      cases i <;> simpa [past, hd] using ih h
    | true =>
      simp only [List.countP_cons, hd, if_true] at h
      cases i with
      | zero => omega
      | succ i => simpa [past, hd] using ih (by omega)

theorem mem_of_mem_past {i : Nat} {ds : List Deed} {d : Deed} (h : d ∈ past mark i ds) : d ∈ ds := by
  fun_induction past mark i ds with
  | case1 => exact h
  | case2 _ rest => exact List.mem_cons_of_mem _ h
  | case3 _ rest _ ih => exact List.mem_cons_of_mem _ (ih h)
  | case4 _ _ rest _ ih => exact List.mem_cons_of_mem _ (ih h)
  | case5 _ _ rest _ ih => exact List.mem_cons_of_mem _ (ih h)

end

/-! ## What a record may say -/

/-- The answer to a command: one line, the command's, or none, because the connection is
closed or the command cannot be written. -/
inductive Answers (message : Json) : Except Failure (List Char) → Prop where
  | written (h : message.isWritable) : Answers message (.ok (encodeLine message))
  | closed (cause : Closure) : Answers message (.error (.closed cause))
  | unwritable (h : ¬ message.isWritable) : Answers message (.error (.value .badValue))

/-- What holds of the record while a child is kept. -/
structure Recorded (record : List Deed) (hearers listeners : Nat) (closed : Bool) : Prop where
  hearers : record.countP Deed.isJoined = hearers
  listeners : record.countP Deed.isEnlisted = listeners
  heard : ∀ i, record.filterMap (Deed.handedTo? i)
    = (past Deed.isJoined i record).filterMap Deed.message?
  told : ∀ i, record.filterMap (Deed.toldTo? i)
    = (past Deed.isEnlisted i record).filterMap Deed.cause?
  once : record.countP Deed.isShut = closed.toNat
  silent : ∀ d ∈ past Deed.isShut 0 record, d.isActive = false
  sends : List.Forall₂ Answers (record.filterMap Deed.asked?) (record.filterMap Deed.answer?)
  stopped : ∀ call, .stopped call ∈ record → closed = true

/-- The deeds are in keeping with what went before: what is handed on goes to
every handler there is, and nothing is after the closing. -/
structure Follows (deeds : List Deed) (hearers listeners : Nat) (closed closed' : Bool) : Prop where
  joined : deeds.countP Deed.isJoined = 0
  enlisted : deeds.countP Deed.isEnlisted = 0
  heard : ∀ i, deeds.filterMap (Deed.handedTo? i)
    = if i < hearers then deeds.filterMap Deed.message? else []
  told : ∀ i, deeds.filterMap (Deed.toldTo? i)
    = if i < listeners then deeds.filterMap Deed.cause? else []
  once : deeds.countP Deed.isShut + closed.toNat = closed'.toNat
  silent : closed = true → ∀ d ∈ deeds, d.isActive = false
  after : ∀ d ∈ past Deed.isShut 0 deeds, d.isActive = false
  sends : List.Forall₂ Answers (deeds.filterMap Deed.asked?) (deeds.filterMap Deed.answer?)
  stopped : ∀ call, .stopped call ∈ deeds → closed' = true

variable {record deeds : List Deed} {hearers listeners : Nat} {closed closed' : Bool}

/-- **The record goes on as it began.** -/
theorem Recorded.append (h : Recorded record hearers listeners closed)
    (hd : Follows deeds hearers listeners closed closed') :
    Recorded (record ++ deeds) hearers listeners closed' := by
  refine ⟨?_, ?_, fun i => ?_, fun i => ?_, ?_, ?_, ?_, ?_⟩
  · rw [List.countP_append, h.hearers, hd.joined, Nat.add_zero]
  · rw [List.countP_append, h.listeners, hd.enlisted, Nat.add_zero]
  · rw [past_append, h.hearers, List.filterMap_append, h.heard, hd.heard]
    split
    · rw [List.filterMap_append]
    · rw [past_of_countP_le (by rw [h.hearers]; omega), past_of_countP_le (by rw [hd.joined]; omega)]
      rfl
  · rw [past_append, h.listeners, List.filterMap_append, h.told, hd.told]
    split
    · rw [List.filterMap_append]
    · rw [past_of_countP_le (by rw [h.listeners]; omega),
        past_of_countP_le (by rw [hd.enlisted]; omega)]
      rfl
  · rw [List.countP_append, h.once, Nat.add_comm, hd.once]
  · intro d hmem
    rw [past_append, h.once] at hmem
    cases closed with
    | false => exact hd.after d (by simpa using hmem)
    | true =>
      rcases List.mem_append.mp (by simpa using hmem) with hmem | hmem
      · exact h.silent d hmem
      · exact hd.silent rfl d hmem
  · rw [List.filterMap_append, List.filterMap_append]
    exact List.rel_append h.sends hd.sends
  · intro call hmem
    rcases List.mem_append.mp hmem with hmem | hmem
    · have hclosed := h.stopped call hmem
      have := hd.once
      rw [hclosed] at this
      cases closed' with
      | false => simp at this
      | true => rfl
    · exact hd.stopped call hmem

/-! ## Deeds that follow -/

/-- A deed that only the child or a log knows of. -/
@[simp] def Deed.isAside : Deed → Bool
  | came _ | started _ | noted _ => true
  | _ => false

/-- Such deeds follow anything. -/
theorem Recorded.asides (h : Recorded record hearers listeners closed)
    (hd : ∀ d ∈ deeds, d.isAside = true) : Recorded (record ++ deeds) hearers listeners closed := by
  induction deeds generalizing record with
  | nil => rwa [List.append_nil]
  | cons d deeds ih =>
    have hone : Follows [d] hearers listeners closed closed := by
      have := hd d List.mem_cons_self
      cases d <;> simp at this <;> constructor <;> simp [past, List.filterMap_cons]
    rw [List.append_cons]
    exact ih (h.append hone) fun d hmem => hd d (List.mem_cons_of_mem _ hmem)

/-- One out of the first `n` is picked. -/
theorem filterMap_range_eq {α : Type} (n i : Nat) (x : α) :
    ((List.range n).filterMap fun j => if j = i then some x else none)
      = if i < n then [x] else [] := by
  induction n with
  | zero => rfl
  | succ n ih =>
    rw [List.range_succ, List.filterMap_append, ih]
    by_cases hn : n = i
    · subst hn
      simp
    · by_cases hi : i < n
      · simp [hn, hi, Nat.lt_succ_of_lt hi]
      · simp [hn, hi, show ¬ i < n + 1 by omega]

/-- Deeds of which each says the same but for its number. -/
def each (n : Nat) (deed : Nat → Deed) : List Deed := (List.range n).map deed

section
variable {n : Nat} {deed : Nat → Deed}

theorem filterMap_each {α : Type} {f : Deed → Option α} (h : ∀ i, f (deed i) = none) :
    (each n deed).filterMap f = [] := by
  simp [each, List.filterMap_map, h]

/-- Whoever is numbered is among them once. -/
theorem filterMap_each_single {α : Type} {f : Deed → Option α} {i : Nat} {x : α}
    (h : ∀ j, f (deed j) = if j = i then some x else none) :
    (each n deed).filterMap f = if i < n then [x] else [] := by
  rw [each, List.filterMap_map, ← filterMap_range_eq]
  exact List.filterMap_congr fun j _ => h j

end

/-- A deed that is done to one handler. -/
@[simp] def Deed.isPersonal : Deed → Bool
  | handed .. | told .. => true
  | _ => false

/-- **Such deeds say to whom they are done**, and nothing else. -/
structure Personal (deeds : List Deed) : Prop where
  joined : deeds.countP Deed.isJoined = 0
  enlisted : deeds.countP Deed.isEnlisted = 0
  shut : deeds.countP Deed.isShut = 0
  messages : deeds.filterMap Deed.message? = []
  causes : deeds.filterMap Deed.cause? = []
  asked : deeds.filterMap Deed.asked? = []
  answers : deeds.filterMap Deed.answer? = []
  stopped : ∀ call, .stopped call ∉ deeds

theorem personal_each {n : Nat} {deed : Nat → Deed} (h : ∀ i, (deed i).isPersonal = true) :
    Personal (each n deed) := by
  have hkind : ∀ d ∈ each n deed, d.isPersonal = true := by
    intro d hd
    obtain ⟨i, -, rfl⟩ := List.mem_map.mp hd
    exact h i
  generalize each n deed = deeds at hkind
  induction deeds with
  | nil => constructor <;> simp
  | cons d deeds ih =>
    have hd := hkind d List.mem_cons_self
    have hrest := ih fun d' hd' => hkind d' (List.mem_cons_of_mem _ hd')
    obtain ⟨hjoined, henlisted, hshut, hmessages, hcauses, hasked, hanswers, hstopped⟩ := hrest
    cases d with
    | handed i message failed => constructor <;> simp [List.filterMap_cons, *]
    | told i cause => constructor <;> simp [List.filterMap_cons, *]
    | _ => cases hd

/-- A message is handed to every handler there is. -/
theorem follows_handing (fails : Nat → Bool) (reading : Except ProtocolFault Json) :
    Follows (Keeping.handing hearers fails reading) hearers listeners false false := by
  cases reading with
  | error fault => constructor <;> simp [Keeping.handing, past, List.filterMap_cons]
  | ok message =>
    let given := each hearers fun i => .handed i message (fails i)
    have hgiven : Personal given := personal_each fun _ => rfl
    have hhanded : ∀ i, given.filterMap (Deed.handedTo? i) = if i < hearers then [message] else [] :=
      fun i => filterMap_each_single fun _ => rfl
    have htold : ∀ i, given.filterMap (Deed.toldTo? i) = [] := fun i => filterMap_each fun _ => rfl
    change Follows (.took (.ok message) :: given) hearers listeners false false
    have hpast : past Deed.isShut 0 (.took (.ok message) :: given) = [] :=
      past_of_countP_le (by simp only [List.countP_cons, hgiven.shut]; simp)
    exact {
      joined := by simp [hgiven.joined]
      enlisted := by simp [hgiven.enlisted]
      heard := fun i => by simp [List.filterMap_cons, hhanded, hgiven.messages]
      told := fun i => by simp [List.filterMap_cons, htold, hgiven.causes]
      once := by simp [hgiven.shut]
      silent := nofun
      after := by simp [hpast]
      sends := by simp [List.filterMap_cons, hgiven.asked, hgiven.answers]
      stopped := by simp [hgiven.stopped] }

/-- The closing is told to every handler there is. -/
theorem follows_closing (closed : Bool) (cause : Option Closure) :
    Follows (Keeping.closing listeners closed cause) hearers listeners closed true := by
  cases closed with
  | true => constructor <;> simp [Keeping.closing, past]
  | false =>
    let given := each listeners fun i => .told i cause
    have hgiven : Personal given := personal_each fun _ => rfl
    have hhanded : ∀ i, given.filterMap (Deed.handedTo? i) = [] :=
      fun i => filterMap_each fun _ => rfl
    have htold : ∀ i, given.filterMap (Deed.toldTo? i) = if i < listeners then [cause] else [] :=
      fun i => filterMap_each_single fun _ => rfl
    change Follows (.shut cause :: given) hearers listeners false true
    exact {
      joined := by simp [hgiven.joined]
      enlisted := by simp [hgiven.enlisted]
      heard := fun i => by simp [List.filterMap_cons, hhanded, hgiven.messages]
      told := fun i => by simp [List.filterMap_cons, htold, hgiven.causes]
      once := by simp [List.countP_cons, hgiven.shut]
      silent := nofun
      after := by simp [past, given, each]
      sends := by simp [List.filterMap_cons, hgiven.asked, hgiven.answers]
      stopped := fun _ _ => rfl }

/-- A command that can be written is, as its own line, as long as the connection is
open. -/
theorem follows_wrote {message : Json} (h : message.isWritable) :
    Follows [.asked message, .wrote (encodeLine message)] hearers listeners false false := by
  constructor <;> simp [past, Answers.written h, List.filterMap_cons]

/-- It is refused where there is a cause. -/
theorem follows_refused {message : Json} {cause : Failure} (h : Answers message (.error cause)) :
    Follows [.asked message, .refused cause] hearers listeners closed closed := by
  constructor <;> simp [past, h, List.filterMap_cons]

/-- A call that stops the child returns after the closing. -/
theorem follows_stopped (call : String) :
    Follows [.stopped call] hearers listeners true true := by
  constructor <;> simp [past, List.filterMap_cons]

/-- After the closing there may be deeds that are not active. -/
theorem Recorded.silent_append (h : Recorded record hearers listeners closed)
    (hd : ∀ d ∈ deeds, d.isActive = false) :
    ∀ d ∈ past Deed.isShut 0 (record ++ deeds), d.isActive = false := by
  intro d hmem
  rw [past_append] at hmem
  split at hmem
  · exact (List.mem_append.mp hmem).elim (h.silent d) (hd d)
  · exact hd d (mem_of_mem_past hmem)

/-- A handler that is registered hears what comes after. -/
theorem Recorded.join (h : Recorded record hearers listeners closed) :
    Recorded (record ++ [.joined]) (hearers + 1) listeners closed where
  hearers := by simp [List.countP_append, h.hearers]
  listeners := by simp [List.countP_append, h.listeners]
  heard i := by
    have hpast : past Deed.isJoined (i - hearers) [.joined] = [] := by
      cases i - hearers <;> simp [past]
    rw [past_append, h.hearers, hpast, List.filterMap_append, h.heard]
    split
    · simp [List.filterMap_cons]
    · rw [past_of_countP_le (by rw [h.hearers]; omega)]
      rfl
  told i := by
    rw [past_append, h.listeners, List.filterMap_append, h.told]
    split
    · simp [List.filterMap_cons]
    · rw [past_of_countP_le (by rw [h.listeners]; omega), past_of_countP_le (by simp)]
      rfl
  once := by simp [List.countP_append, h.once]
  silent := h.silent_append (by simp)
  sends := by simpa [List.filterMap_cons] using h.sends
  stopped := by simpa using h.stopped

/-- So does a handler of the closing. -/
theorem Recorded.enlist (h : Recorded record hearers listeners closed) :
    Recorded (record ++ [.enlisted]) hearers (listeners + 1) closed where
  hearers := by simp [List.countP_append, h.hearers]
  listeners := by simp [List.countP_append, h.listeners]
  heard i := by
    rw [past_append, h.hearers, List.filterMap_append, h.heard]
    split
    · simp [List.filterMap_cons]
    · rw [past_of_countP_le (by rw [h.hearers]; omega), past_of_countP_le (by simp)]
      rfl
  told i := by
    have hpast : past Deed.isEnlisted (i - listeners) [.enlisted] = [] := by
      cases i - listeners <;> simp [past]
    rw [past_append, h.listeners, hpast, List.filterMap_append, h.told]
    split
    · simp [List.filterMap_cons]
    · rw [past_of_countP_le (by rw [h.listeners]; omega)]
      rfl
  once := by simp [List.countP_append, h.once]
  silent := h.silent_append (by simp)
  sends := by simpa [List.filterMap_cons] using h.sends
  stopped := by simpa using h.stopped

end Child

end LanguageRelay
