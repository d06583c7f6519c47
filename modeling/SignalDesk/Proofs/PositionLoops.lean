import Mathlib.Data.List.TakeWhile
import SignalDesk.Proofs.Causality

namespace SignalDesk

open Scalar

/-- What can go wrong at a position of a series. -/
inductive Misstep where
  /-- a window of no bars -/
  | emptyWindow
  /-- a position of more than 64 bits -/
  | overflow
  /-- a position in front of the first one -/
  | underflow
  /-- a position or a part that a series does not have -/
  | outOfRange
deriving Repr, DecidableEq

/-- A computation that checks its positions. -/
abbrev Checked := Except Misstep

namespace Checked

def plus (i j : Nat) : Checked Nat := if i + j < positionLimit then .ok (i + j) else .error .overflow

def minus (i j : Nat) : Checked Nat := if j ≤ i then .ok (i - j) else .error .underflow

section Series

variable {α σ : Type}

def entry (values : List α) (i : Nat) : Checked α :=
  match values[i]? with
  | some value => .ok value
  | none => .error .outOfRange

/-- The entries from `first` on, up to the one in front of `behind`. -/
def part (values : List α) (first behind : Nat) : Checked (List α) :=
  if first ≤ behind ∧ behind ≤ values.length then .ok ((values.drop first).take (behind - first))
  else .error .outOfRange

def put (values : List α) (i : Nat) (value : α) : Checked (List α) :=
  if i < values.length then .ok (values.set i value) else .error .outOfRange

/-- Goes through `count` positions from `i` on, or up to the one at which the body ends the walk. -/
def walk (body : Nat → σ → Checked (Option σ)) : Nat → Nat → σ → Checked σ
  | 0, _, state => .ok state
  | count + 1, i, state => do
    match ← body i state with
    | some next => walk body count (i + 1) next
    | none => .ok state

theorem ok_bind (value : α) (next : α → Checked σ) : (.ok value >>= next : Checked σ) = next value := rfl

theorem plus_ok {i j : Nat} (room : i + j < positionLimit) : plus i j = .ok (i + j) := if_pos room

theorem minus_ok {i j : Nat} (behind : j ≤ i) : minus i j = .ok (i - j) := if_pos behind

theorem entry_ok {values : List α} {i : Nat} {value : α} (there : values[i]? = some value) :
    entry values i = .ok value := by
  rw [entry, there]

theorem part_ok {values : List α} {first behind : Nat} (ordered : first ≤ behind)
    (within : behind ≤ values.length) :
    part values first behind = .ok ((values.drop first).take (behind - first)) :=
  if_pos ⟨ordered, within⟩

theorem put_ok {values : List α} {i : Nat} (within : i < values.length) (value : α) :
    put values i value = .ok (values.set i value) :=
  if_pos within

theorem walk_next {body : Nat → σ → Checked (Option σ)} {i : Nat} {state next : σ}
    (step : body i state = .ok (some next)) (count : Nat) :
    walk body (count + 1) i state = walk body count (i + 1) next := by
  rw [walk, step]
  rfl

theorem walk_ended {body : Nat → σ → Checked (Option σ)} {i : Nat} {state : σ} (step : body i state = .ok none)
    (count : Nat) : walk body (count + 1) i state = .ok state := by
  rw [walk, step]
  rfl

/-- A body that leads from each state to the next one leads from the first to the last. -/
theorem walk_states {body : Nat → σ → Checked (Option σ)} (states : Nat → σ) {first last : Nat}
    (step : ∀ i, first ≤ i → i < last → body i (states i) = .ok (some (states (i + 1)))) (ordered : first ≤ last) :
    walk body (last - first) first (states first) = .ok (states last) := by
  induction count : last - first generalizing first with
  | zero =>
    have same : first = last := by omega
    rw [same, walk]
  | succ count ih =>
    rw [walk_next (step first (Nat.le_refl _) (by omega))]
    exact ih (fun i behind => step i (by omega)) (by omega) (by omega)

end Series

end Checked

open Checked

variable {α : Type} [Scalar α]

theorem put_append {front : List α} {i : Nat} (length : front.length = i) (n : Nat) (value : α) :
    put (front ++ undefineds (n + 1)) i value = .ok ((front ++ [value]) ++ undefineds n) := by
  have within : i < (front ++ undefineds (n + 1)).length := by
    rw [List.length_append, length_undefineds]
    omega
  rw [put_ok within, List.set_append_right _ _ (by omega), length, Nat.sub_self, undefineds, List.replicate_succ,
    List.set_cons_zero, List.append_assoc, List.singleton_append]
  rfl

/-- The first value that is put into an empty series. -/
theorem put_undefineds {i n : Nat} (within : i < n) (value : α) :
    put (undefineds n) i value = .ok ((undefineds i ++ [value]) ++ undefineds (n - (i + 1))) := by
  have more : n = i + (n - (i + 1) + 1) := by omega
  conv_lhs => rw [more, ← undefineds_append]
  exact put_append (length_undefineds i) _ value

/-- A series of which only the values in front of a position are known so far. -/
def filled (target : List α) (i : Nat) : List α := target.take i ++ undefineds (target.length - i)

theorem put_filled {target : List α} {i : Nat} {value : α} (there : target[i]? = some value) :
    put (filled target i) i value = .ok (filled target (i + 1)) := by
  obtain ⟨within, rfl⟩ := List.getElem?_eq_some_iff.mp there
  have front : (target.take i).length = i := by rw [List.length_take]; omega
  have more : target.length - i = target.length - (i + 1) + 1 := by omega
  rw [filled, filled, more, put_append front, List.take_succ_eq_append_getElem within]

theorem filled_of_undefined {target : List α} {i : Nat} (there : target[i]? = some undefined) :
    filled target i = filled target (i + 1) := by
  obtain ⟨within, same⟩ := List.getElem?_eq_some_iff.mp there
  have more : target.length - i = target.length - (i + 1) + 1 := by omega
  rw [filled, filled, List.take_succ_eq_append_getElem within, same, more, List.append_assoc,
    List.singleton_append]
  rfl

theorem filled_length (target : List α) : filled target target.length = target := by
  rw [filled, List.take_length, Nat.sub_self, undefineds, List.replicate_zero, List.append_nil]

/-- Nothing has to be put where nothing is defined. -/
theorem filled_of_silent {target : List α} {k : Nat} (silent : ∀ i < k, target[i]? = some undefined) :
    filled target k = undefineds target.length := by
  induction k with
  | zero => rfl
  | succ k ih => rw [← filled_of_undefined (silent k k.lt_succ_self), ih fun i before => silent i (by omega)]

/-- A walk that puts each value of a series at its position computes the series. -/
theorem walk_filled {target : List α} {body : Nat → List α → Checked (Option (List α))} {first : Nat}
    (silent : ∀ i < first, target[i]? = some undefined) (ordered : first ≤ target.length)
    (step : ∀ i, first ≤ i → i < target.length → body i (filled target i) = .ok (some (filled target (i + 1)))) :
    walk body (target.length - first) first (undefineds target.length) = .ok target := by
  have walked := walk_states (filled target) step ordered
  rwa [filled_of_silent silent, filled_length] at walked

theorem rolling_getElem? (period : Nat) (f : List α → α) {values : List α} {i : Nat}
    (within : i < values.length) :
    (rolling period f values)[i]? = some (if period = 0 ∨ i + 1 < period then undefined
      else if (windowAt period values i).any isUndefined then undefined else f (windowAt period values i)) := by
  simp [rolling, within]

/-- Puts the value of the window up to a position, if the window has no gap. -/
def putWindow (period : Nat) (f : List α → α) (values : List α) (i : Nat) (result : List α) :
    Checked (Option (List α)) := do
  let behind ← plus i 1
  let window ← part values (← minus behind period) behind
  if window.any isUndefined then return some result else return some (← put result i (f window))

/-- A series of windows, from the position on at which the first window is full. -/
def windowLoop (period : Nat) (f : List α → α) (values : List α) : Checked (List α) :=
  if period = 0 ∨ values.length < period then .ok (undefineds values.length)
  else do
    let first ← minus period 1
    walk (putWindow period f values) (values.length - first) first (undefineds values.length)

theorem putWindow_filled {period i : Nat} (f : List α → α) {values : List α} (full : ¬(period = 0 ∨ i + 1 < period))
    (within : i < values.length) (addressable : values.length < positionLimit) :
    putWindow period f values i (filled (rolling period f values) i) =
      .ok (some (filled (rolling period f values) (i + 1))) := by
  have value := rolling_getElem? period f within
  have window : (values.drop (i + 1 - period)).take (i + 1 - (i + 1 - period)) = windowAt period values i := by
    rw [windowAt, Nat.sub_sub_self (by omega)]
  rw [if_neg full] at value
  simp only [putWindow, plus_ok (show i + 1 < positionLimit by omega), minus_ok (show period ≤ i + 1 by omega),
    part_ok (show i + 1 - period ≤ i + 1 by omega) (show i + 1 ≤ values.length by omega), window, ok_bind]
  split at value
  · rename_i gap
    rw [if_pos gap, filled_of_undefined value]
    rfl
  · rename_i gapless
    rw [if_neg gapless, put_filled value]
    rfl

theorem windowLoop_eq {period : Nat} (f : List α → α) {values : List α}
    (addressable : values.length < positionLimit) :
    windowLoop period f values = .ok (rolling period f values) := by
  have length := (rolling_causal period f).length_eq values
  have silent {k : Nat} (early : ∀ i < k, period = 0 ∨ i + 1 < period) (within : k ≤ values.length) :
      ∀ i < k, (rolling period f values)[i]? = some undefined := by
    intro i before
    rw [rolling_getElem? period f (by omega), if_pos (early i before)]
  unfold windowLoop
  split
  · rename_i short
    rw [← length, ← filled_of_silent (silent (k := (rolling period f values).length) (fun i before => by omega) (by omega)),
      filled_length]
  · rename_i long
    rw [minus_ok (by omega), ok_bind, ← length]
    exact walk_filled (silent (fun i before => by omega) (by omega)) (by omega) fun i after within =>
      putWindow_filled f (by omega) (by omega) addressable

/-- One step of smoothing at a position; a gap ends the walk. -/
def putSmoothed (weight : α) (values : List α) (i : Nat) (state : α × List α) :
    Checked (Option (α × List α)) := do
  let value ← entry values i
  if isUndefined value then return none
  else
    let next := blend weight value state.1
    return some (next, ← put state.2 i next)

/-- Smoothing from the mean of the `period` values from `start` on. -/
def smoothLoop (weight : α) (start period : Nat) (values : List α) : Checked (List α) := do
  let behind ← plus start period
  if values.length < behind then return undefineds values.length
  else
    let seed ← part values start behind
    if seed.any isUndefined then return undefineds values.length
    else
      let first := sum seed / ofNat period
      let result ← put (undefineds values.length) (← minus behind 1) first
      return (← walk (putSmoothed weight values) (values.length - behind) behind (first, result)).2

section Smoothing

variable {weight previous value : α} {values front : List α} {i : Nat}

theorem putSmoothed_next (there : values[i]? = some value) (defined : isUndefined value = false)
    (length : front.length = i) (n : Nat) :
    putSmoothed weight values i (previous, front ++ undefineds (n + 1)) =
      .ok (some (blend weight value previous, (front ++ [blend weight value previous]) ++ undefineds n)) := by
  simp only [putSmoothed, entry_ok there, ok_bind, defined, Bool.false_eq_true, if_false, put_append length]
  rfl

theorem putSmoothed_ended (there : values[i]? = some value) (gap : isUndefined value = true)
    (state : α × List α) : putSmoothed weight values i state = .ok none := by
  simp only [putSmoothed, entry_ok there, ok_bind, gap, if_true]
  rfl

/-- The walk puts what smoothing makes of the values that are left. -/
theorem walk_putSmoothed (weight previous : α) {before front : List α} (rest : List α)
    (aligned : front.length = before.length) :
    ∃ last, walk (putSmoothed weight (before ++ rest)) rest.length before.length
      (previous, front ++ undefineds rest.length) = .ok (last, front ++ smoothFrom weight previous rest) := by
  induction rest generalizing previous before front with
  | nil => exact ⟨previous, rfl⟩
  | cons value rest ih =>
    have there : (before ++ value :: rest)[before.length]? = some value := by simp
    cases gap : isUndefined value with
    | true =>
      refine ⟨previous, ?_⟩
      rw [List.length_cons, walk_ended (putSmoothed_ended there gap _), smoothFrom, if_pos gap]
    | false =>
      have ahead : (front ++ [blend weight value previous]).length = (before ++ [value]).length := by
        rw [List.length_append, List.length_append, aligned]
        rfl
      obtain ⟨last, walked⟩ := ih (blend weight value previous) ahead
      refine ⟨last, ?_⟩
      rw [List.length_cons, walk_next (putSmoothed_next there gap aligned _), smoothFrom, gap,
        if_neg Bool.false_ne_true]
      simpa only [List.append_assoc, List.singleton_append, List.length_append, List.length_singleton] using walked

theorem smoothLoop_eq {start period : Nat} (positive : 1 ≤ period) (within : start ≤ values.length)
    (room : start + period < positionLimit) :
    smoothLoop weight start period values =
      .ok (undefineds start ++ smoothFromMean weight period (values.drop start)) := by
  have left : (values.drop start).length = values.length - start := List.length_drop
  have nothing : undefineds start ++ undefineds (values.length - start) = (undefineds values.length : List α) := by
    rw [undefineds_append, Nat.add_sub_cancel' within]
  rw [smoothLoop, plus_ok room, ok_bind]
  split
  · rename_i short
    rw [smoothFromMean, if_pos (by omega), left, nothing]
    rfl
  · rename_i long
    have whole : (values.drop start).take (start + period - start) = (values.drop start).take period := by
      rw [Nat.add_sub_cancel_left]
    rw [part_ok (by omega) (by omega), ok_bind, whole]
    split
    · rename_i gap
      rw [smoothFromMean, if_pos (Or.inr (Or.inr gap)), left, nothing]
      rfl
    · rename_i gapless
      have tooShort : ¬(period = 0 ∨ (values.drop start).length < period ∨
          ((values.drop start).take period).any isUndefined) := by
        rw [left]
        simp only [gapless, Bool.false_eq_true, or_false, not_or]
        omega
      have count : ((values.drop start).take period).length = period := by
        rw [List.length_take, left]
        omega
      have aligned : (undefineds (start + period - 1) ++ [mean ((values.drop start).take period)]).length =
          (values.take (start + period)).length := by
        rw [List.length_append, length_undefineds, List.length_singleton, List.length_take]
        omega
      obtain ⟨last, walked⟩ := walk_putSmoothed weight (mean ((values.drop start).take period))
        (values.drop (start + period)) aligned
      rw [List.take_append_drop, List.length_drop, List.length_take, Nat.min_eq_left (by omega)] at walked
      rw [minus_ok (by omega), ok_bind, put_undefineds (by omega), Nat.sub_add_cancel (by omega), ok_bind,
        smoothFromMean, if_neg tooShort]
      rw [mean, count] at walked ⊢
      rw [walked, ok_bind, List.drop_drop, ← List.append_assoc, undefineds_append,
        show start + (period - 1) = start + period - 1 by omega, List.append_assoc, List.singleton_append]
      rfl

end Smoothing

/-- Smoothing from the first defined value on. -/
def wilderLoop (period : Nat) (values : List α) : Checked (List α) :=
  if period = 0 then .ok (undefineds values.length)
  else match values.findIdx? fun value => !isUndefined value with
    | none => .ok (undefineds values.length)
    | some start => smoothLoop (ofNat 1 / ofNat period) start period values

theorem wilderSmooth_of_all_undefined {period : Nat} (positive : 1 ≤ period) {values : List α}
    (nowhere : ∀ value ∈ values, isUndefined value = true) : wilderSmooth period values = undefineds values.length := by
  have tooShort : period = 0 ∨ ([] : List α).length < period ∨ (([] : List α).take period).any isUndefined :=
    Or.inr (Or.inl positive)
  rw [wilderSmooth, List.takeWhile_eq_self_iff.mpr nowhere, List.dropWhile_eq_nil_iff.mpr nowhere, smoothFromMean,
    if_pos tooShort]
  exact List.append_nil _

theorem all_eq_false_iff {β : Type} {p : β → Bool} {values : List β} :
    values.all p = false ↔ ∃ start, (values.findIdx? fun value => !p value) = some start := by
  rw [← Option.isSome_iff_exists, List.findIdx?_isSome, List.all_eq_not_any_not]
  simp

theorem length_takeWhile_of_findIdx? {β : Type} {p : β → Bool} {values : List β} {start : Nat}
    (found : (values.findIdx? fun value => !p value) = some start) : (values.takeWhile p).length = start := by
  obtain ⟨within, first⟩ := List.findIdx?_eq_some_iff_findIdx_eq.mp found
  rw [List.takeWhile_eq_take_findIdx_not, first, List.length_take]
  omega

theorem wilderLoop_eq {period : Nat} (positive : 1 ≤ period) (values : List α) :
    wilderLoop period values =
      if values.all isUndefined || (values.takeWhile isUndefined).length + period < positionLimit then
        .ok (wilderSmooth period values)
      else .error .overflow := by
  rw [wilderLoop, if_neg (by omega)]
  split
  · rename_i nowhere
    have nothing : ∀ value ∈ values, isUndefined value = true := by
      simpa using List.findIdx?_eq_none_iff.mp nowhere
    rw [List.all_eq_true.mpr nothing, Bool.true_or, if_pos rfl, wilderSmooth_of_all_undefined positive nothing]
  · rename_i start found
    have defined : values.all isUndefined = false := all_eq_false_iff.mpr ⟨start, found⟩
    have front := length_takeWhile_of_findIdx? found
    obtain ⟨within, first⟩ := List.findIdx?_eq_some_iff_findIdx_eq.mp found
    rw [defined, Bool.false_or, wilderSmooth, front, List.dropWhile_eq_drop_findIdx_not, first]
    by_cases room : start + period < positionLimit
    · rw [if_pos (decide_eq_true room), smoothLoop_eq positive (by omega) room]
    · rw [if_neg (by simpa using room), smoothLoop, plus, if_neg room]
      rfl

/-- Puts the true range of a bar, if its prices and the close before it are known. -/
def putTrueRange (bars : List (Bar α)) (i : Nat) (result : List α) : Checked (Option (List α)) := do
  let bar ← entry bars i
  let previous ← entry bars (← minus i 1)
  if isUndefined bar.high || isUndefined bar.low || isUndefined previous.closing then return some result
  else
    let range := larger (larger (bar.high - bar.low) (abs (bar.high - previous.closing)))
      (abs (bar.low - previous.closing))
    return some (← put result i range)

def trueRangeLoop (bars : List (Bar α)) : Checked (List α) :=
  walk (putTrueRange bars) (bars.length - 1) 1 (undefineds bars.length)

theorem putTrueRange_filled {bars : List (Bar α)} {i : Nat} (within : i + 1 < bars.length) :
    putTrueRange bars (i + 1) (filled (trueRanges bars) (i + 1)) =
      .ok (some (filled (trueRanges bars) (i + 1 + 1))) := by
  have here := List.getElem?_eq_getElem within
  have before := List.getElem?_eq_getElem (Nat.lt_of_succ_lt within)
  have value := trueRanges_getElem? before here
  rw [putTrueRange, entry_ok here, ok_bind, minus_ok (by omega), ok_bind, Nat.add_sub_cancel, entry_ok before,
    ok_bind]
  rw [trueRange] at value
  split at value
  · rename_i gap
    rw [if_pos gap, filled_of_undefined value]
    rfl
  · rename_i gapless
    rw [if_neg gapless]
    dsimp only
    rw [put_filled value]
    rfl

theorem trueRangeLoop_eq (bars : List (Bar α)) : trueRangeLoop bars = .ok (trueRanges bars) := by
  have length := trueRanges_causal.length_eq bars
  cases bars with
  | nil => rfl
  | cons first rest =>
    rw [trueRangeLoop, ← length]
    refine walk_filled ?_ ?_ ?_
    · intro i before
      rw [Nat.lt_one_iff.mp before]
      rfl
    · rw [length]
      exact Nat.succ_pos _
    · intro i behind within
      obtain ⟨j, rfl⟩ : ∃ j, i = j + 1 := ⟨i - 1, by omega⟩
      exact putTrueRange_filled (length ▸ within)

/-- Adds the change of the close from one bar to the next. -/
def pushChange (closes : List α) (i : Nat) (moves : List α) : Checked (Option (List α)) := do
  let close ← entry closes i
  let previous ← entry closes (← minus i 1)
  return some (moves ++ [close - previous])

def changeLoop (closes : List α) : Checked (List α) := walk (pushChange closes) (closes.length - 1) 1 []

theorem changeLoop_eq (closes : List α) : changeLoop closes = .ok (changes closes) := by
  have length := length_changes closes
  cases closes with
  | nil => rfl
  | cons first rest =>
    have step (i : Nat) (behind : 1 ≤ i) (within : i < (first :: rest).length) :
        pushChange (first :: rest) i ((changes (first :: rest)).take (i - 1)) =
          .ok (some ((changes (first :: rest)).take (i + 1 - 1))) := by
      obtain ⟨j, rfl⟩ : ∃ j, i = j + 1 := ⟨i - 1, by omega⟩
      have here := List.getElem?_eq_getElem within
      have before := List.getElem?_eq_getElem (Nat.lt_of_succ_lt within)
      rw [pushChange, entry_ok here, ok_bind, minus_ok (by omega), ok_bind, Nat.add_sub_cancel, entry_ok before,
        ok_bind, Nat.add_sub_cancel, List.take_add_one, changes_getElem? before here]
      rfl
    have walked := walk_states (fun i => (changes (first :: rest)).take (i - 1)) step (by simp)
    rw [← length, List.take_length] at walked
    rw [changeLoop, ← length]
    exact walked

/-- One step of the oscillator at a position; a gap ends the walk. -/
def putStrength (weight : α) (moves : List α) (i : Nat) (state : α × α × List α) :
    Checked (Option (α × α × List α)) := do
  let change ← entry moves (← minus i 1)
  if isUndefined change then return none
  else
    let gain := blend weight (larger change (ofNat 0)) state.1
    let loss := blend weight (larger (-change) (ofNat 0)) state.2.1
    return some (gain, loss, ← put state.2.2 i (relativeStrength gain loss))

def strengthLoop (period : Nat) (closes : List α) : Checked (List α) := do
  let behind ← plus period 1
  if closes.length < behind then return undefineds closes.length
  else
    let moves ← changeLoop closes
    let seed ← part moves 0 period
    if seed.any isUndefined then return undefineds closes.length
    else
      let gain := sum (seed.filter fun c => less (ofNat 0) c) / ofNat period
      let loss := -sum (seed.filter fun c => less c (ofNat 0)) / ofNat period
      let result ← put (undefineds closes.length) period (relativeStrength gain loss)
      let walked ← walk (putStrength (ofNat 1 / ofNat period) moves) (closes.length - behind) behind
        (gain, loss, result)
      return walked.2.2

section Strength

variable (weight gain loss : α) {change : α} {moves front : List α} {i : Nat}

theorem putStrength_next (there : moves[i]? = some change) (defined : isUndefined change = false)
    (length : front.length = i + 1) (n : Nat) :
    putStrength weight moves (i + 1) (gain, loss, front ++ undefineds (n + 1)) =
      let nextGain := blend weight (larger change (ofNat 0)) gain
      let nextLoss := blend weight (larger (-change) (ofNat 0)) loss
      .ok (some (nextGain, nextLoss, (front ++ [relativeStrength nextGain nextLoss]) ++ undefineds n)) := by
  rw [putStrength, minus_ok (by omega), ok_bind, Nat.add_sub_cancel, entry_ok there, ok_bind, defined,
    if_neg Bool.false_ne_true]
  dsimp only
  rw [put_append length]
  rfl

theorem putStrength_ended (there : moves[i]? = some change) (gap : isUndefined change = true)
    (state : α × α × List α) : putStrength weight moves (i + 1) state = .ok none := by
  rw [putStrength, minus_ok (by omega), ok_bind, Nat.add_sub_cancel, entry_ok there, ok_bind, if_pos gap]
  rfl

/-- The walk puts the strengths after the changes that are left. -/
theorem walk_putStrength {before front : List α} (rest : List α) (aligned : front.length = before.length + 1) :
    ∃ last, walk (putStrength weight (before ++ rest)) rest.length (before.length + 1)
        (gain, loss, front ++ undefineds rest.length) = .ok last ∧
      last.2.2 = front ++ ((averagesFrom weight gain loss rest).map fun average =>
        relativeStrength average.1 average.2) ++
          undefineds (rest.length - (averagesFrom weight gain loss rest).length) := by
  induction rest generalizing gain loss before front with
  | nil => exact ⟨_, rfl, by simp [averagesFrom]⟩
  | cons change rest ih =>
    have there : (before ++ change :: rest)[before.length]? = some change := by simp
    cases gap : isUndefined change with
    | true =>
      refine ⟨_, walk_ended (putStrength_ended weight there gap _) rest.length, ?_⟩
      rw [averagesFrom, if_pos gap]
      simp
    | false =>
      have stepped := putStrength_next weight gain loss there gap aligned rest.length
      dsimp only at stepped
      generalize nextGain : blend weight (larger change (ofNat 0)) gain = gain' at stepped
      generalize nextLoss : blend weight (larger (-change) (ofNat 0)) loss = loss' at stepped
      have ahead : (front ++ [relativeStrength gain' loss']).length = (before ++ [change]).length + 1 := by
        simp [aligned]
      obtain ⟨last, walked, result⟩ := ih gain' loss' ahead
      refine ⟨last, ?_, ?_⟩
      · rw [List.length_cons, walk_next stepped]
        simpa only [List.append_assoc, List.singleton_append, List.length_append, List.length_singleton] using walked
      · rw [result, averagesFrom, gap, if_neg Bool.false_ne_true]
        simp [nextGain, nextLoss]

theorem rsi_of_nothing {period : Nat} {closes : List α} (nothing : strengthAverages period closes = []) :
    rsi period closes = undefineds closes.length := by
  simp only [rsi, nothing, List.isEmpty_nil, if_true]

theorem strengthLoop_eq {period : Nat} (positive : 1 ≤ period) (closes : List α) :
    strengthLoop period closes =
      if period + 1 < positionLimit then .ok (rsi period closes) else .error .overflow := by
  rw [strengthLoop]
  by_cases room : period + 1 < positionLimit
  · rw [if_pos room, plus_ok room, ok_bind]
    split
    · rename_i short
      rw [rsi_of_nothing (by rw [strengthAverages, if_pos (Or.inr (Or.inl short))])]
      rfl
    · rename_i long
      have moves := length_changes closes
      rw [changeLoop_eq, ok_bind, part_ok (by omega) (by omega), ok_bind, List.drop_zero, Nat.sub_zero]
      split
      · rename_i gap
        rw [rsi_of_nothing (by rw [strengthAverages, if_pos (Or.inr (Or.inr gap))])]
        rfl
      · rename_i gapless
        have seeded : ¬(period = 0 ∨ closes.length < period + 1 ∨ ((changes closes).take period).any isUndefined) := by
          simp only [gapless, Bool.false_eq_true, or_false, not_or]
          omega
        rw [rsi_eq_append, strengthAverages, if_neg seeded]
        dsimp only
        generalize sum (((changes closes).take period).filter fun c => less (ofNat 0) c) / ofNat period = gain
        generalize -sum (((changes closes).take period).filter fun c => less c (ofNat 0)) / ofNat period = loss
        have aligned : (undefineds period ++ [relativeStrength gain loss]).length =
            ((changes closes).take period).length + 1 := by
          rw [List.length_append, length_undefineds, List.length_singleton, List.length_take, moves]
          omega
        obtain ⟨last, walked, result⟩ := walk_putStrength (ofNat 1 / ofNat period) gain loss
          ((changes closes).drop period) aligned
        rw [List.take_append_drop, List.length_drop, List.length_take, moves, Nat.min_eq_left (by omega),
          show closes.length - 1 - period = closes.length - (period + 1) by omega] at walked
        rw [put_undefineds (by omega), ok_bind, walked, ok_bind]
        change Except.ok last.2.2 = _
        rw [result, Nat.min_eq_left (by omega), List.map_cons, List.length_cons, List.length_drop, moves]
        generalize averagesFrom (ofNat 1 / ofNat period) gain loss ((changes closes).drop period) = later
        rw [show closes.length - period - (later.length + 1) = closes.length - 1 - period - later.length by omega]
        simp only [List.append_assoc, List.cons_append, List.nil_append]
  · rw [if_neg room, plus, if_neg room]
    rfl

end Strength

end SignalDesk
