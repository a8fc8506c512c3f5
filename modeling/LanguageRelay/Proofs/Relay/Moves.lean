import LanguageRelay.Relay.Sessions
import Mathlib.Data.List.Basic
/-!
# Moves of a relay

Whatever happens to a relay is a *move*: an operation of the editor, of a
call, of a timer or of the connection. A run is a list of moves in any
order. The outbox is never emptied along a run, so it is the history of what
the relay did; `Adds P` says that a piece of that history holds nothing but
effects that satisfy `P`.

The operations that recurse over a list are shown to be one update of the
outbox each (`releaseWaiters_eq`, `logSkipped_eq`), and `notify` to have two
cases, by whether the next command is refused.

No move limits what the transport takes. So along a run it takes all there is as long
as the connection is open, if it did so before (`Link.refusal?_eq_closed`).
-/

namespace LanguageRelay

namespace Link

variable {link link' : Link}

/-- A command that is not refused is written on an open connection. -/
theorem closed_of_taken (h : link.refusal? = none) : link.closed = none :=
  (Option.or_eq_none_iff.mp h).1

/-- A closed connection refuses whatever is written. -/
theorem refusal?_of_closed {cause : Closure} (h : link.closed = some cause) :
    link.refusal? = some cause := by
  rw [refusal?, h, Option.some_or]

/-- How things stand with the transport: why the connection closed, and how far commands
are taken. -/
def standing (link : Link) : Option Closure × Option Limit := (link.closed, link.limit)

theorem closed_of_standing (h : link'.standing = link.standing) : link'.closed = link.closed :=
  congrArg Prod.fst h

theorem limit_of_standing (h : link'.standing = link.standing) : link'.limit = link.limit :=
  congrArg Prod.snd h

/-- What refuses commands still does when more numbers were given out. -/
theorem refuses_still (hstanding : link'.standing = link.standing) (hlast : link.last ≤ link'.last)
    (h : link.refusal? ≠ none) : link'.refusal? ≠ none := by
  rw [refusal?, closed_of_standing hstanding, limit_of_standing hstanding]
  rw [refusal?] at h
  cases hclosed : link.closed with
  | some cause => simp
  | none =>
    rw [hclosed] at h
    cases hlimit : link.limit with
    | none => simp [hlimit] at h
    | some l =>
      have hreached : l.last ≤ link.last := by
        by_contra hnot
        simp [hlimit, hnot] at h
      simp [Nat.le_trans hreached hlast]

/-- Nor does what was refused get through when more is said to be. -/
theorem refuses_limited (room : Nat) (cause : Closure) (h : link.refusal? ≠ none) :
    Link.refusal? { link with limit := link.limit.or (some ⟨link.last + room, cause⟩) } ≠ none := by
  rw [refusal?] at h ⊢
  cases hlimit : link.limit with
  | none =>
    rw [hlimit, Option.bind_none, Option.or_none] at h
    obtain ⟨first, hclosed⟩ := Option.ne_none_iff_exists'.mp h
    simp [hclosed]
  | some l => rwa [hlimit] at h

/-- A transport without a limit refuses nothing, unless the connection is closed. -/
theorem refusal?_eq_closed (h : link.limit = none) : link.refusal? = link.closed := by
  rw [refusal?, h, Option.bind_none, Option.or_none]

/-- Over an open connection without a limit, commands are taken. -/
theorem taken_of_standing (h : link.standing = (none, none)) : link.refusal? = none := by
  rw [refusal?_eq_closed (congrArg Prod.snd h)]
  exact congrArg Prod.fst h

end Link

namespace Relay

/-! ## Moves and runs -/

/-- A setup that asks for syntax diagnostics alone and tells changes one by
one. -/
def syntaxOnly : Setup :=
  { categories := ["syntax"], delay := .ofMillis 0, fullSync := false, root := none
    autoCheck := false, window := none }

/-- The commands that tell the analysis server of a document or ask it for an
error check. All others are *plain*. -/
def documentCommands : List String :=
  [Service.openName, Service.changeName, Service.closeName, Service.errorCheckName]

/-- What can happen to a relay. -/
inductive Move where
  /-- A document is opened, or opened again. -/
  | openDocument (uri languageId : String) (version : Int) (content : String)
  | changeDocument (uri : String) (version : Int) (changes : List TextChange)
  | closeDocument (uri : String)
  /-- A call asks for the diagnostics of a document. -/
  | requestCheck (uri : String) (waiter : Nat)
  /-- A call that waits for diagnostics is given up. -/
  | withdrawWaiter (waiter : Nat)
  | schedule (uri : String)
  /-- A timer comes due. -/
  | fire (uri : String) (timer : Nat)
  /-- Any plain command is written that nobody waits on. -/
  | notify (name : String) (arguments : Json) (plain : name ∉ documentCommands)
  /-- Any plain command is written that awaits its response. -/
  | ask (name : String) (arguments : Json) (plain : name ∉ documentCommands)
  /-- A command that awaits its response is given up. -/
  | withdraw (seq : Nat)
  /-- A call has done with its command. -/
  | unlist (seq : Nat)
  /-- The analysis server sent a message. -/
  | receive (message : Json)
  | disconnect (cause : Closure)

/-- The failure of an operation, if it failed. -/
def failureOf {α : Type} : Except Failure α → Option Failure
  | .ok _ => none
  | .error e => some e

/-- Makes a move. -/
def Move.perform (m : Move) (r : Relay) : Relay × Option Failure :=
  match m with
  | openDocument uri languageId version content => r.openDocument uri languageId version content
  | changeDocument uri version changes => r.changeDocument uri version changes
  | closeDocument uri => r.closeDocument uri
  | requestCheck uri waiter =>
    ((r.requestCheck uri waiter).1, failureOf (r.requestCheck uri waiter).2)
  | withdrawWaiter waiter => (r.withdrawWaiter waiter, none)
  | schedule uri => (r.schedule uri, none)
  | fire uri timer => ((r.fire uri timer).1, none)
  | notify name arguments _ => ((r.notify name arguments).1, failureOf (r.notify name arguments).2)
  | ask name arguments _ => ((r.ask name arguments).1, failureOf (r.ask name arguments).2)
  | withdraw seq => (r.withdraw seq, none)
  | unlist seq => (r.unlist seq, none)
  | receive message => r.receive message
  | disconnect cause => (r.disconnect cause, none)

/-- Makes moves one after another. -/
def run (moves : List Move) (r : Relay) : Relay := moves.foldl (fun r m => (m.perform r).1) r

@[simp] theorem run_nil (r : Relay) : run [] r = r := rfl

@[simp] theorem run_snoc (moves : List Move) (m : Move) (r : Relay) :
    run (moves ++ [m]) r = (m.perform (run moves r)).1 := by
  simp [run]

/-- What holds of a relay and is kept by every move holds after any moves. -/
theorem run_induction {P : Relay → Prop} {r : Relay} (h : P r)
    (hstep : ∀ r m, P r → P (Move.perform m r).1) (moves : List Move) : P (run moves r) := by
  induction moves generalizing r with
  | nil => exact h
  | cons m rest ih => exact ih (hstep r m h)

/-- The documents that moves open. -/
def openedUris (moves : List Move) : List String :=
  moves.filterMap fun m =>
    match m with
    | .openDocument uri _ _ _ => some uri
    | _ => none

theorem openedUris_append (moves moves' : List Move) :
    openedUris (moves ++ moves') = openedUris moves ++ openedUris moves' :=
  List.filterMap_append ..

/-- No two documents are of one file. -/
def DistinctFiles (uris : List String) : Prop :=
  ∀ u ∈ uris, ∀ v ∈ uris, ∀ file, Uri.fileOf? u = some file → Uri.fileOf? v = some file → u = v

theorem DistinctFiles.of_append {moves rest : List Move}
    (h : DistinctFiles (openedUris (moves ++ rest))) : DistinctFiles (openedUris moves) := by
  have hsub : ∀ u ∈ openedUris moves, u ∈ openedUris (moves ++ rest) := by
    intro u hu
    rw [openedUris_append]
    exact List.mem_append_left _ hu
  exact fun u hu v hv => h u (hsub u hu) v (hsub v hv)

theorem DistinctFiles.of_snoc {moves : List Move} {m : Move}
    (h : DistinctFiles (openedUris (moves ++ [m]))) : DistinctFiles (openedUris moves) :=
  h.of_append

/-! ## What operations add to the history -/

/-- One relay has come from another by effects that all satisfy `P`. -/
def Adds (P : Effect → Prop) (r r' : Relay) : Prop :=
  ∃ fx, r'.outbox = r.outbox ++ fx ∧ ∀ e ∈ fx, P e

variable {P Q : Effect → Prop} {r r' r'' : Relay}

theorem Adds.refl (P : Effect → Prop) (r : Relay) : Adds P r r := ⟨[], by simp⟩

theorem Adds.of_outbox_eq (h : r'.outbox = r.outbox) : Adds P r r' := ⟨[], by simp [h]⟩

theorem Adds.trans (h : Adds P r r') (h' : Adds P r' r'') : Adds P r r'' := by
  obtain ⟨fx, hfx, hP⟩ := h
  obtain ⟨fy, hfy, hQ⟩ := h'
  refine ⟨fx ++ fy, by rw [hfy, hfx, List.append_assoc], fun e he => ?_⟩
  rcases List.mem_append.mp he with he | he
  · exact hP e he
  · exact hQ e he

theorem Adds.mono (hPQ : ∀ e, P e → Q e) (h : Adds P r r') : Adds Q r r' := by
  obtain ⟨fx, hfx, hP⟩ := h
  exact ⟨fx, hfx, fun e he => hPQ e (hP e he)⟩

theorem adds_emit {e : Effect} (h : P e) (r : Relay) : Adds P r (r.emit e) :=
  ⟨[e], rfl, by simpa using h⟩

/-! ## The numbers of commands -/

/-- The numbers of the commands written in a history. -/
def numbers (history : List Effect) : List Int :=
  history.filterMap fun e =>
    match e with
    | .sent command => some command.seq
    | _ => none

theorem numbers_append (history fx : List Effect) :
    numbers (history ++ fx) = numbers history ++ numbers fx :=
  List.filterMap_append ..

/-- No command was written. -/
theorem numbers_of_silent {fx : List Effect} (h : ∀ e ∈ fx, ∀ command, e ≠ .sent command) :
    numbers fx = [] := by
  refine List.filterMap_eq_nil_iff.mpr fun e he => ?_
  cases e with
  | sent command => exact absurd rfl (h _ he command)
  | _ => rfl

/-- **Commands are numbered on**: those written since have ascending numbers
after the last that was given out, up to the last given out now. -/
structure NumbersOn (r r' : Relay) : Prop where
  last : r.link.last ≤ r'.link.last
  written : ∃ fx, r'.outbox = r.outbox ++ fx ∧ (numbers fx).Pairwise (· < ·) ∧
    ∀ k ∈ numbers fx, (r.link.last : Int) < k ∧ k ≤ r'.link.last

theorem NumbersOn.of_silent (hlast : r.link.last ≤ r'.link.last)
    (h : Adds (fun e => ∀ command, e ≠ .sent command) r r') : NumbersOn r r' := by
  obtain ⟨fx, hfx, hsilent⟩ := h
  refine ⟨hlast, fx, hfx, ?_⟩
  rw [numbers_of_silent hsilent]
  exact ⟨.nil, by simp⟩

theorem NumbersOn.refl (r : Relay) : NumbersOn r r := .of_silent (Nat.le_refl _) (.refl _ r)

theorem NumbersOn.trans (h : NumbersOn r r') (h' : NumbersOn r' r'') : NumbersOn r r'' := by
  have hlast := h.last
  have hlast' := h'.last
  obtain ⟨fx, hfx, hascending, hbounded⟩ := h.written
  obtain ⟨fy, hfy, hascending', hbounded'⟩ := h'.written
  refine ⟨Nat.le_trans h.last h'.last, fx ++ fy, by rw [hfy, hfx, List.append_assoc], ?_, ?_⟩
  · rw [numbers_append]
    refine List.pairwise_append.mpr ⟨hascending, hascending', fun k hk k' hk' => ?_⟩
    exact Int.lt_of_le_of_lt (hbounded k hk).2 (hbounded' k' hk').1
  · intro k hk
    rw [numbers_append] at hk
    rcases List.mem_append.mp hk with hk | hk
    · have hle := hbounded k hk
      omega
    · have hle := hbounded' k hk
      omega

/-- A command that is written has the number given out for it. -/
theorem numbersOn_sent (name : String) (arguments : Json) (r : Relay) :
    NumbersOn r (r.takeSeq.emit (.sent ⟨(r.nextSeq : Nat), name, arguments⟩)) := by
  refine ⟨Nat.le_succ _, [_], rfl, List.pairwise_singleton _ _, fun k hk => ?_⟩
  obtain rfl : k = (r.nextSeq : Int) := by simpa [numbers] using hk
  exact ⟨Int.ofNat_lt.mpr (Nat.lt_succ_self _), Int.le_refl _⟩

/-! ## Operations as updates -/

/-- The waiters of a list that are not settled, each released with an
outcome. -/
def releases (outcome : Except Failure Unit) (ws : List Waiter) : List Effect :=
  (ws.filter fun w => !w.settled).map fun w => .released w.id outcome

/-- Releasing waiters tells each that is not settled, and changes nothing
else. -/
theorem releaseWaiters_eq (outcome : Except Failure Unit) (ws : List Waiter) (r : Relay) :
    releaseWaiters outcome ws r = { r with outbox := r.outbox ++ releases outcome ws } := by
  induction ws generalizing r with
  | nil => simp [releaseWaiters, releases]
  | cons w rest ih =>
    rw [releaseWaiters, ih]
    cases hw : w.settled <;> simp [releases, emit, hw]

/-- The line that says why an entry is left out. -/
def skipLine (uri : String) (fault : ProtocolFault) : Effect :=
  .logged .error ("skipping diagnostic for " ++ uri ++ ": " ++ fault.message)

/-- Logging what is left out changes nothing else. -/
theorem logSkipped_eq (uri : String) (faults : List ProtocolFault) (r : Relay) :
    logSkipped uri faults r = { r with outbox := r.outbox ++ faults.map (skipLine uri) } := by
  induction faults generalizing r with
  | nil => simp [logSkipped]
  | cons fault rest ih => simp [logSkipped, ih, log, emit, skipLine]

/-- The outcomes that the closing of the connection gives to commands. -/
def rejections (cause : Closure) (pending : List Pending) : List Effect :=
  (pending.filter fun p => !p.settled).map fun p => .answered p.seq (.error (.closed cause))

/-- Rejecting commands answers each that is not settled, and changes nothing
else. -/
theorem rejectAll_eq (cause : Closure) (pending : List Pending) (r : Relay) :
    rejectAll cause pending r = { r with outbox := r.outbox ++ rejections cause pending } := by
  induction pending generalizing r with
  | nil => simp [rejectAll, rejections]
  | cons p rest ih =>
    rw [rejectAll, ih]
    cases hp : p.settled <;> simp [rejections, emit, hp]

/-- A command that is taken is written under the next number. -/
theorem notify_of_taken (h : r.link.refusal? = none) (name : String) (arguments : Json) :
    r.notify name arguments =
      (r.takeSeq.emit (.sent ⟨(r.nextSeq : Nat), name, arguments⟩), .ok r.nextSeq) := by
  simp [notify, h]

/-- For one that is refused only a number is used up. -/
theorem notify_of_refused {cause : Closure} (h : r.link.refusal? = some cause) (name : String)
    (arguments : Json) : r.notify name arguments = (r.takeSeq, .error (.closed cause)) := by
  simp [notify, h]

/-- What a written command says, whether it awaits a response or not. -/
theorem adds_notify {name : String} {arguments : Json}
    (h : ∀ seq, P (.sent ⟨seq, name, arguments⟩)) (r : Relay) :
    Adds P r (r.notify name arguments).1 := by
  cases hc : r.link.refusal? with
  | none =>
    rw [notify_of_taken hc]
    exact ⟨[_], rfl, by simpa using h _⟩
  | some cause =>
    rw [notify_of_refused hc]
    exact Adds.of_outbox_eq rfl

end Relay

end LanguageRelay
