import Bindery.Proofs.Blind
/-!
# Merging logs

A log that takes over another one is told what the other log kept, not what was reported to it. So the errors that the
other log left out under its cap are counted in neither. The count of errors is the number of errors ever reported
exactly when every log that was merged had room for all of its errors, and the merged log shows an error when no such
log was closed to errors altogether.
-/
namespace Bindery

namespace Log

/-- How a log came about: empty at first, under a cap, and then told diagnostics one by one or those of another log. -/
inductive History where
  | start (cap : Option Nat)
  | add (before : History) (diagnostic : Diagnostic)
  | extend (before other : History)

namespace History

def log : History → Log
  | start cap => withCap cap
  | add before diagnostic => before.log.add diagnostic
  | extend before other => before.log.extend other.log

def cap : History → Option Nat
  | start cap => cap
  | add before _ => before.cap
  | extend before _ => before.cap

/-- How many errors were ever reported, to the log or to one that was merged into it. -/
def errors : History → Nat
  | start _ => 0
  | add before diagnostic => before.errors + if diagnostic.isError then 1 else 0
  | extend before other => before.errors + other.errors

/-- The logs that were merged, at any depth. -/
def merged : History → List History
  | start _ => []
  | add before _ => before.merged
  | extend before other => before.merged ++ other :: other.merged

def Fits (history : History) : Prop := ∀ cap ∈ history.cap, history.errors ≤ cap

/-- What the log was told, in order. -/
def reports : History → List Diagnostic
  | start _ => []
  | add before diagnostic => before.reports ++ [diagnostic]
  | extend before other => before.reports ++ keptUnder other.cap other.reports

end History

theorem foldl_add_holding (cap : Option Nat) (more : List Diagnostic) : ∀ reports : List Diagnostic,
    more.foldl add (holding cap reports) = holding cap (reports ++ more) := by
  induction more with
  | nil => exact fun reports => by rw [List.foldl_nil, List.append_nil]
  | cons diagnostic rest ih =>
    intro reports
    rw [List.foldl_cons, add_holding, ih, List.append_assoc, List.singleton_append]

/-- **A log is told what the other one kept.** -/
theorem extend_holding (cap other : Option Nat) (reports more : List Diagnostic) :
    (holding cap reports).extend (holding other more) = holding cap (reports ++ keptUnder other more) :=
  foldl_add_holding cap _ reports

theorem errorsIn_append (xs ys : List Diagnostic) : errorsIn (xs ++ ys) = errorsIn xs + errorsIn ys :=
  List.countP_append

theorem errorsIn_firstErrors (reports : List Diagnostic) : ∀ cap, errorsIn (firstErrors cap reports) =
    min cap (errorsIn reports) := by
  induction reports with
  | nil => exact fun cap => (Nat.min_zero cap).symm
  | cons diagnostic rest ih =>
    intro cap
    by_cases h : diagnostic.isError
    · have hcount : ∀ l, errorsIn (diagnostic :: l) = errorsIn l + 1 := fun l => List.countP_cons_of_pos h
      cases cap with
      | zero => rw [firstErrors, if_pos h, ih, Nat.zero_min, Nat.zero_min]
      | succ cap => rw [firstErrors, if_pos h, hcount, hcount, ih, Nat.add_min_add_right]
    · have hcount : ∀ l, errorsIn (diagnostic :: l) = errorsIn l := fun l => List.countP_cons_of_neg h
      have hfirst : firstErrors cap (diagnostic :: rest) = diagnostic :: firstErrors cap rest := by
        simp [firstErrors, h]
      rw [hfirst, hcount, hcount, ih]

namespace History

/-- **A log holds what it was told.** -/
theorem log_eq_holding (history : History) : history.log = holding history.cap history.reports := by
  induction history with
  | start cap => exact (holding_nil cap).symm
  | add before diagnostic ih => rw [log, ih, add_holding]; rfl
  | extend before other ih iho => rw [log, ih, iho, extend_holding]; rfl

/-- The errors that a log hands on when it is merged. -/
def handedOn (history : History) : Nat := errorsIn (keptUnder history.cap history.reports)

theorem errorCount_log (history : History) : history.log.errorCount = errorsIn history.reports := by
  rw [log_eq_holding]
  rfl

theorem errorCount_add (before : History) (diagnostic : Diagnostic) :
    (add before diagnostic).log.errorCount = before.log.errorCount + if diagnostic.isError then 1 else 0 := by
  rw [errorCount_log, errorCount_log, reports, errorsIn_append, errorsIn, errorsIn, List.countP_singleton]

theorem errorCount_extend (before other : History) :
    (extend before other).log.errorCount = before.log.errorCount + other.handedOn := by
  rw [errorCount_log, errorCount_log, reports, errorsIn_append]
  rfl

/-- A log hands on all the errors that it counted, up to its cap. -/
theorem handedOn_eq (history : History) : history.handedOn =
    match history.cap with
    | none => history.log.errorCount
    | some cap => min cap history.log.errorCount := by
  rw [handedOn, errorCount_log]
  cases history.cap with
  | none => rfl
  | some cap => exact errorsIn_firstErrors _ cap

theorem handedOn_le (history : History) : history.handedOn ≤ history.log.errorCount := by
  rw [handedOn_eq]
  split
  · exact Nat.le_refl _
  · exact Nat.min_le_right _ _

theorem errorCount_le (history : History) : history.log.errorCount ≤ history.errors := by
  induction history with
  | start cap => exact Nat.le_refl 0
  | add before diagnostic ih => rw [errorCount_add, errors]; omega
  | extend before other ih iho =>
    have := other.handedOn_le
    rw [errorCount_extend, errors]
    omega

theorem handedOn_eq_errors_iff (history : History) :
    history.handedOn = history.errors ↔ history.log.errorCount = history.errors ∧ history.Fits := by
  have hle := history.errorCount_le
  rw [handedOn_eq, Fits]
  cases history.cap with
  | none => simp
  | some cap =>
    simp only [Option.mem_some_iff, forall_eq']
    omega

theorem errorCount_eq_errors_iff (history : History) :
    history.log.errorCount = history.errors ↔ ∀ other ∈ history.merged, other.Fits := by
  induction history with
  | start cap => exact ⟨fun _ other h => (List.not_mem_nil h).elim, fun _ => rfl⟩
  | add before diagnostic ih =>
    rw [errorCount_add, errors, merged, ← ih]
    omega
  | extend before other ih iho =>
    have hbefore := before.errorCount_le
    have hother := Nat.le_trans other.handedOn_le other.errorCount_le
    -- Neither part counts too many, so the sums agree only if both parts do.
    have hsum : (extend before other).log.errorCount = (extend before other).errors ↔
        before.log.errorCount = before.errors ∧ other.handedOn = other.errors := by
      rw [errorCount_extend, errors]
      omega
    rw [hsum, ih, handedOn_eq_errors_iff, iho, merged, List.forall_mem_append, List.forall_mem_cons,
      and_comm (b := other.Fits)]

theorem handedOn_pos {history : History} (h : history.cap = some 0 → history.errors = 0)
    (hpos : 0 < history.log.errorCount) : 0 < history.handedOn := by
  have hle := history.errorCount_le
  rw [handedOn_eq]
  cases hcap : history.cap with
  | none => exact hpos
  | some cap =>
    have hne : cap ≠ 0 := fun h0 => by
      have := h (by rw [hcap, h0])
      omega
    show 0 < min cap _
    omega

theorem errorCount_pos {history : History} (h : ∀ other ∈ history.merged, other.cap = some 0 → other.errors = 0)
    (hpos : 0 < history.errors) : 0 < history.log.errorCount := by
  induction history with
  | start cap => exact hpos
  | add before diagnostic ih =>
    rw [errors] at hpos
    rw [errorCount_add]
    by_cases hbefore : 0 < before.errors
    · have := ih h hbefore
      omega
    · omega
  | extend before other ih iho =>
    rw [errors] at hpos
    rw [errorCount_extend]
    rw [merged, List.forall_mem_append, List.forall_mem_cons] at h
    by_cases hbefore : 0 < before.errors
    · have := ih h.1 hbefore
      omega
    · have := handedOn_pos h.2.1 (iho h.2.2 (by omega))
      omega

/-- **Merging counts what the merged logs kept.** However a log was made of reports and of other logs under any caps, it
counts no more errors than were ever reported, and all of them if and only if each log that was merged, at any depth,
had room for all of its errors, those of the logs merged into it included. It shows errors only if one was reported; and
if one was, it shows errors unless a log that was merged had errors and no room for any. -/
theorem merged_errorCount (history : History) :
    history.log.errorCount ≤ history.errors ∧
    (history.log.errorCount = history.errors ↔ ∀ other ∈ history.merged, other.Fits) ∧
    (history.log.hasErrors → 0 < history.errors) ∧
    ((∀ other ∈ history.merged, other.cap = some 0 → other.errors = 0) →
      (history.log.hasErrors ↔ 0 < history.errors)) := by
  have hle := history.errorCount_le
  have hshown : history.log.hasErrors → 0 < history.errors := fun h => by
    have : 0 < history.log.errorCount := of_decide_eq_true h
    omega
  have hreported : (∀ other ∈ history.merged, other.cap = some 0 → other.errors = 0) → 0 < history.errors →
      history.log.hasErrors := fun h hpos => decide_eq_true (errorCount_pos h hpos)
  exact ⟨hle, history.errorCount_eq_errors_iff, hshown, fun h => ⟨hshown, hreported h⟩⟩

def missing (name : String) : Diagnostic := .of (.onLine 0 1 1 2) .cannotFindName [name]

/-- A log that took over one under a cap of two, which took over one under a cap of one. -/
def nested : History :=
  (start none).add (missing "a") |>.extend <|
    ((start (some 2)).add (missing "b")).extend ((start (some 1)).add (missing "c"))

theorem nested_errorCount : nested.merged.length = 2 ∧ (∀ other ∈ nested.merged, other.Fits) ∧
    nested.errors = 3 ∧ nested.log.errorCount = nested.errors ∧ nested.log.hasErrors := by
  have hfits : ∀ other ∈ nested.merged, other.Fits := by
    simp only [nested, merged, List.nil_append, List.forall_mem_cons, Fits, cap, Option.mem_some_iff, forall_eq']
    decide
  have hopen : ∀ other ∈ nested.merged, other.cap = some 0 → other.errors = 0 := by
    simp only [nested, merged, List.nil_append, List.forall_mem_cons, cap]
    decide
  obtain ⟨-, hexact, -, hshown⟩ := merged_errorCount nested
  exact ⟨rfl, hfits, rfl, hexact.2 hfits, (hshown hopen).2 (by decide)⟩

/-- Two errors were reported to a log with room for one, and one error to a log without room: merged, they count as one
and as none. -/
theorem leftOut_uncounted :
    let lost := (start (some 1)).add (missing "a") |>.add (missing "b")
    let shut := (start (some 0)).add (missing "a")
    ((start none).extend lost).errors = 2 ∧ ((start none).extend lost).log.errorCount = 1 ∧
      ((start none).extend shut).errors = 1 ∧ ((start none).extend shut).log.hasErrors = false := by
  decide

end History

end Log

end Bindery
