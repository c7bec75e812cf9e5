import Mathlib.Data.List.Induction

/-!
# Runs of a component that may raise

A component is a step function: from a state and an input to the next state, or to the
exception that escapes the callback. A run feeds the inputs in order and ends at the first
escaping exception. The rules below carry what one step preserves to whole runs. A component
that never raises is a step to the next state and to what it puts out; its run collects the
output, and an observer may note more than is put out.
-/

namespace MonitoringRobot.Base.Machine

universe u v w x

variable {σ : Type u} {ι : Type v} {ε : Type w}

/-- Feed the inputs in order; an exception ends the run. -/
def run (step : σ → ι → Except ε σ) : σ → List ι → Except ε σ
  | s, [] => .ok s
  | s, i :: is =>
    match step s i with
    | .ok t => run step t is
    | .error e => .error e

/-- The condition `G` holds of every state and input met along the run. -/
def Along (step : σ → ι → Except ε σ) (G : σ → ι → Prop) : σ → List ι → Prop
  | _, [] => True
  | s, i :: is => G s i ∧ ∀ t, step s i = .ok t → Along step G t is

variable {step : σ → ι → Except ε σ} {G : σ → ι → Prop}

@[simp] theorem run_nil (s : σ) : run step s [] = .ok s := rfl

/-- A step that returns is followed by the rest of the run. -/
theorem run_cons_ok {s t : σ} {i : ι} (is : List ι) (h : step s i = .ok t) :
    run step s (i :: is) = run step t is := by
  simp only [run, h]

theorem run_cons_error {s : σ} {i : ι} {e : ε} (is : List ι) (h : step s i = .error e) :
    run step s (i :: is) = .error e := by
  simp only [run, h]

theorem run_singleton (s : σ) (i : ι) : run step s [i] = step s i := by
  cases h : step s i with
  | ok t => rw [run_cons_ok [] h, run_nil]
  | error e => exact run_cons_error [] h

theorem run_append {s t : σ} {is : List ι} (js : List ι) (h : run step s is = .ok t) :
    run step s (is ++ js) = run step t js := by
  induction is generalizing s with
  | nil =>
    rw [run_nil] at h
    rw [Except.ok.inj h, List.nil_append]
  | cons i is ih =>
    cases hi : step s i with
    | ok u =>
      rw [run_cons_ok is hi] at h
      rw [List.cons_append, run_cons_ok _ hi]
      exact ih h
    | error e =>
      rw [run_cons_error is hi] at h
      cases h

theorem run_append_ok {s u : σ} (is js : List ι) (h : run step s (is ++ js) = .ok u) :
    ∃ t, run step s is = .ok t ∧ run step t js = .ok u := by
  induction is generalizing s with
  | nil => exact ⟨s, rfl, h⟩
  | cons i is ih =>
    cases hi : step s i with
    | ok t =>
      rw [List.cons_append, run_cons_ok _ hi] at h
      rw [run_cons_ok _ hi]
      exact ih h
    | error e =>
      rw [List.cons_append, run_cons_error _ hi] at h
      cases h

/-- What every step preserves holds after every run. -/
theorem run_invariant {P : σ → Prop} (hstep : ∀ s i t, P s → step s i = .ok t → P t)
    {s t : σ} {is : List ι} (hs : P s) (h : run step s is = .ok t) : P t := by
  induction is generalizing s with
  | nil => rw [run_nil] at h; exact Except.ok.inj h ▸ hs
  | cons i is ih =>
    cases hi : step s i with
    | ok u => rw [run_cons_ok is hi] at h; exact ih (hstep s i u hs hi) h
    | error e => rw [run_cons_error is hi] at h; cases h

/-- History rule: a fact about the inputs consumed so far and the state they lead to holds
after the whole run, and the run returns. The step premise may use that the inputs consumed
are a prefix of the run. -/
theorem run_history {P : List ι → σ → Prop} {s : σ} {is : List ι} (base : P [] s)
    (hstep : ∀ pre i t, pre ++ [i] <+: is → P pre t → ∃ u, step t i = .ok u ∧ P (pre ++ [i]) u) :
    ∃ t, run step s is = .ok t ∧ P is t := by
  induction is using List.reverseRecOn with
  | nil => exact ⟨s, rfl, base⟩
  | append_singleton is i ih =>
    obtain ⟨t, ht, hP⟩ := ih fun pre j t hp =>
      hstep pre j t (hp.trans (List.prefix_append is [i]))
    obtain ⟨u, hu, hQ⟩ := hstep is i t (List.prefix_refl _) hP
    exact ⟨u, by rw [run_append [i] ht, run_singleton, hu], hQ⟩

/-- Where a step returns exactly under `G`, a run returns exactly when `G` holds along it. -/
theorem run_ok_iff_along {P : σ → Prop}
    (hok : ∀ s i, P s → ((∃ t, step s i = .ok t) ↔ G s i))
    (hstep : ∀ s i t, P s → step s i = .ok t → P t) {s : σ} (hs : P s) (is : List ι) :
    (∃ t, run step s is = .ok t) ↔ Along step G s is := by
  induction is generalizing s with
  | nil => simp [Along]
  | cons i is ih =>
    cases hi : step s i with
    | ok u =>
      have hG : G s i := (hok s i hs).mp ⟨u, hi⟩
      simp only [run_cons_ok is hi, Along, hG, hi, Except.ok.injEq, forall_eq', true_and]
      exact ih (hstep s i u hs hi)
    | error e =>
      have hG : ¬ G s i := fun hG => by
        obtain ⟨t, ht⟩ := (hok s i hs).mpr hG
        rw [hi] at ht
        cases ht
      simp [run_cons_error is hi, Along, hG]

section Emit

variable {ο : Type w} {emits : σ → ι → σ × List ο}

/-- Feed the inputs in order and collect the output. -/
def emit (emits : σ → ι → σ × List ο) : σ → List ι → σ × List ο
  | s, [] => (s, [])
  | s, i :: is => ((emit emits (emits s i).1 is).1, (emits s i).2 ++ (emit emits (emits s i).1 is).2)

@[simp] theorem emit_nil (s : σ) : emit emits s [] = (s, []) := rfl

theorem emit_cons (s : σ) (i : ι) (is : List ι) : emit emits s (i :: is) =
    ((emit emits (emits s i).1 is).1, (emits s i).2 ++ (emit emits (emits s i).1 is).2) := rfl

/-- A first input that puts nothing out only moves the state. -/
theorem emit_cons_silent {s t : σ} {i : ι} (is : List ι) (h : emits s i = (t, [])) :
    emit emits s (i :: is) = emit emits t is := by
  rw [emit_cons, h, List.nil_append]

theorem emit_append (s : σ) (is js : List ι) : emit emits s (is ++ js) =
    ((emit emits (emit emits s is).1 js).1,
      (emit emits s is).2 ++ (emit emits (emit emits s is).1 js).2) := by
  induction is generalizing s with
  | nil => rfl
  | cons i is ih => rw [List.cons_append, emit_cons, emit_cons, ih, List.append_assoc]

theorem emit_concat (s : σ) (is : List ι) (i : ι) : emit emits s (is ++ [i]) =
    ((emits (emit emits s is).1 i).1, (emit emits s is).2 ++ (emits (emit emits s is).1 i).2) := by
  rw [emit_append, emit_cons, emit_nil, List.append_nil]

/-- History rule: a fact about the state and everything put out so far, which the steps of
the run preserve, holds after the run. -/
theorem emit_history {P : σ → List ο → Prop} {s : σ} (base : P s []) {is : List ι}
    (hstep : ∀ t out, ∀ i ∈ is, P t out → P (emits t i).1 (out ++ (emits t i).2)) :
    P (emit emits s is).1 (emit emits s is).2 := by
  induction is using List.reverseRecOn with
  | nil => exact base
  | append_singleton is i ih =>
    rw [emit_concat]
    apply hstep
    · simp
    · apply ih
      intro t out j hj
      exact hstep t out j (List.mem_append_left _ hj)

/-- What every step preserves holds after every run. -/
theorem emit_invariant {P : σ → Prop} {s : σ} (hs : P s)
    (hstep : ∀ t i, P t → P (emits t i).1) (is : List ι) : P (emit emits s is).1 :=
  emit_history (P := fun t _ ↦ P t) hs fun t _ i _ h ↦ hstep t i h

/-- Where every step from a state with `P` keeps `P` and puts out entries with `Q` only, so
does every run. -/
theorem emit_forall {P : σ → Prop} {Q : ο → Prop} {s : σ} (hs : P s)
    (hstep : ∀ t i, P t → P (emits t i).1 ∧ ∀ o ∈ (emits t i).2, Q o) (is : List ι) :
    P (emit emits s is).1 ∧ ∀ o ∈ (emit emits s is).2, Q o := by
  apply emit_history (P := fun t out ↦ P t ∧ ∀ o ∈ out, Q o)
  · exact ⟨hs, fun o ho ↦ absurd ho List.not_mem_nil⟩
  · intro t out i _ ⟨ht, hout⟩
    constructor
    · exact (hstep t i ht).1
    · intro o ho
      cases List.mem_append.mp ho with
      | inl ho => exact hout o ho
      | inr ho => exact (hstep t i ht).2 o ho

/-- The condition `G` holds of every state and input met along the run. -/
def EmitAlong (emits : σ → ι → σ × List ο) (G : σ → ι → Prop) : σ → List ι → Prop
  | _, [] => True
  | s, i :: is => G s i ∧ EmitAlong emits G (emits s i).1 is

/-- The condition holds along a run when it holds along both parts. -/
theorem emitAlong_append {G : σ → ι → Prop} (s : σ) (is js : List ι) :
    EmitAlong emits G s (is ++ js) ↔
      EmitAlong emits G s is ∧ EmitAlong emits G (emit emits s is).1 js := by
  induction is generalizing s with
  | nil => simp only [List.nil_append, EmitAlong, true_and, emit_nil]
  | cons i is ih => rw [List.cons_append, EmitAlong, EmitAlong, ih, emit_cons, and_assoc]

/-- Where every step that meets `G` keeps `P` and puts out entries with `Q` only, so does
every run along which `G` holds. -/
theorem emit_forall_along {G : σ → ι → Prop} {P : σ → Prop} {Q : ο → Prop}
    (hstep : ∀ t i, P t → G t i → P (emits t i).1 ∧ ∀ o ∈ (emits t i).2, Q o) {s : σ}
    (hs : P s) {is : List ι} (h : EmitAlong emits G s is) :
    P (emit emits s is).1 ∧ ∀ o ∈ (emit emits s is).2, Q o := by
  induction is generalizing s with
  | nil => exact ⟨hs, fun o ho ↦ absurd ho List.not_mem_nil⟩
  | cons i is ih =>
    obtain ⟨hnext, hout⟩ := hstep s i hs h.1
    obtain ⟨hlast, hrest⟩ := ih hnext h.2
    rw [emit_cons]
    refine ⟨hlast, ?_⟩
    intro o ho
    cases List.mem_append.mp ho with
    | inl ho => exact hout o ho
    | inr ho => exact hrest o ho

/-- Rest rule: where the same input, given again and again, lowers a measure until the component
rests, it rests after as many inputs as the measure says. -/
theorem emit_rests {P rests : σ → Prop} {measure : σ → Nat} {i : ι}
    (hkeep : ∀ s, P s → P (emits s i).1) (hrests : ∀ s, rests s → rests (emits s i).1)
    (hlower : ∀ s, P s → ¬ rests s → measure (emits s i).1 < measure s) {s : σ} (hs : P s)
    {n : Nat} (hn : measure s ≤ n) : rests (emit emits s (List.replicate n i)).1 := by
  induction n generalizing s with
  | zero =>
    by_contra hrest
    have hless := hlower s hs hrest
    omega
  | succ n ih =>
    rw [List.replicate_succ, emit_cons]
    by_cases hrest : rests s
    · have hall : ∀ m t, rests t → rests (emit emits t (List.replicate m i)).1 := by
        intro m
        induction m with
        | zero => exact fun t ht ↦ ht
        | succ m ihm =>
          intro t ht
          rw [List.replicate_succ, emit_cons]
          exact ihm _ (hrests t ht)
      exact hall n _ (hrests s hrest)
    · have hless := hlower s hs hrest
      exact ih (hkeep s hs) (by omega)

/-- Simulation rule: two components whose related states take every input to related states
and put out the same, put out the same over every run. -/
theorem emit_simulation {τ : Type x} {emits' : τ → ι → τ × List ο} {R : σ → τ → Prop}
    (hstep : ∀ s t i, R s t → R (emits s i).1 (emits' t i).1 ∧ (emits s i).2 = (emits' t i).2)
    {s : σ} {t : τ} (h : R s t) (is : List ι) :
    R (emit emits s is).1 (emit emits' t is).1 ∧
      (emit emits s is).2 = (emit emits' t is).2 := by
  induction is generalizing s t with
  | nil => exact ⟨h, rfl⟩
  | cons i is ih =>
    obtain ⟨hnext, hout⟩ := hstep s t i h
    obtain ⟨hrest, houts⟩ := ih hnext
    rw [emit_cons, emit_cons, hout, houts]
    exact ⟨hrest, rfl⟩

/-- Framing rule: where every frame, fed in a state with `P`, puts out what it carries and
leaves a state with `P`, a sequence of frames puts out what they carry in order. -/
theorem emit_flatMap {α : Type x} {P : σ → Prop} {frame : α → List ι} {out : α → List ο}
    {as : List α} (hframe : ∀ a ∈ as, ∀ t, P t →
      P (emit emits t (frame a)).1 ∧ (emit emits t (frame a)).2 = out a) {s : σ} (hs : P s) :
    P (emit emits s (as.flatMap frame)).1 ∧
      (emit emits s (as.flatMap frame)).2 = as.flatMap out := by
  induction as generalizing s with
  | nil => exact ⟨hs, rfl⟩
  | cons a as ih =>
    have ha := hframe a (List.mem_cons_self ..) s hs
    have has := ih (fun b hb ↦ hframe b (List.mem_cons_of_mem a hb)) ha.1
    rw [List.flatMap_cons, emit_append, List.flatMap_cons, ha.2, has.2]
    exact ⟨has.1, rfl⟩

/-- A component without a state puts out something for each input. -/
theorem emit_each {f : ι → List ο} (s : σ) (is : List ι) :
    emit (fun (t : σ) i ↦ (t, f i)) s is = (s, is.flatMap f) := by
  induction is with
  | nil => rfl
  | cons i is ih => rw [emit_cons, ih, List.flatMap_cons]

/-- Cutting the inputs into batches changes neither the state nor the output. -/
theorem emit_flatten (s : σ) (batches : List (List ι)) :
    emit (fun t batch ↦ emit emits t batch) s batches = emit emits s batches.flatten := by
  induction batches generalizing s with
  | nil => rfl
  | cons batch batches ih => rw [List.flatten_cons, emit_append, emit_cons, ih]

/-- Inputs that leave the state alone can be left out, and only what they put out is missed. -/
theorem emit_filter {pass : ι → Bool} {keep : ο → Bool}
    (hstate : ∀ s i, pass i = true → (emits s i).1 = s)
    (hout : ∀ s i, pass i = true → (emits s i).2.filter keep = []) (s : σ) (is : List ι) :
    (emit emits s is).1 = (emit emits s (is.filter fun i ↦ !pass i)).1 ∧
      (emit emits s is).2.filter keep =
        (emit emits s (is.filter fun i ↦ !pass i)).2.filter keep := by
  induction is generalizing s with
  | nil => exact ⟨rfl, rfl⟩
  | cons i is ih =>
    rw [emit_cons, List.filter_append]
    cases hpass : pass i with
    | true =>
      rw [List.filter_cons_of_neg (by simp [hpass]), hstate s i hpass, hout s i hpass,
        List.nil_append]
      exact ih s
    | false =>
      rw [List.filter_cons_of_pos (by simp [hpass]), emit_cons, List.filter_append]
      exact ⟨(ih _).1, congrArg _ (ih _).2⟩

section Pipe

variable {τ : Type x} {κ : Type x} {up : σ → ι → σ × List κ} {down : τ → κ → τ × List ο}

/-- Two components in a row: the second one is fed with what the first one puts out. -/
def pipe (up : σ → ι → σ × List κ) (down : τ → κ → τ × List ο) (s : σ × τ) (i : ι) :
    (σ × τ) × List ο :=
  (((up s.1 i).1, (emit down s.2 (up s.1 i).2).1), (emit down s.2 (up s.1 i).2).2)

/-- Composition rule: a run of two components in a row is a run of the first one, and a run of
the second one over everything it put out. -/
theorem emit_pipe (s : σ) (t : τ) (is : List ι) : emit (pipe up down) (s, t) is =
    (((emit up s is).1, (emit down t (emit up s is).2).1),
      (emit down t (emit up s is).2).2) := by
  induction is generalizing s t with
  | nil => rfl
  | cons i is ih =>
    rw [emit_cons, emit_cons, pipe, ih, emit_append]

end Pipe

/-- What is noted of the states and inputs met along a run. -/
def observe {κ : Type x} (emits : σ → ι → σ × List ο) (note : σ → ι → List κ) :
    σ → List ι → List κ
  | _, [] => []
  | s, i :: is => note s i ++ observe emits note (emits s i).1 is

variable {κ : Type x} {note : σ → ι → List κ}

theorem observe_concat (s : σ) (is : List ι) (i : ι) :
    observe emits note s (is ++ [i]) =
      observe emits note s is ++ note (emit emits s is).1 i := by
  induction is generalizing s with
  | nil => rw [List.nil_append, observe, observe, observe, List.append_nil, emit_nil,
      List.nil_append]
  | cons j is ih => rw [List.cons_append, observe, observe, ih, emit_cons, List.append_assoc]

theorem observe_append (s : σ) (is js : List ι) : observe emits note s (is ++ js) =
    observe emits note s is ++ observe emits note (emit emits s is).1 js := by
  induction is generalizing s with
  | nil => rw [List.nil_append, observe, List.nil_append, emit_nil]
  | cons i is ih => rw [List.cons_append, observe, observe, ih, emit_cons, List.append_assoc]

/-- Nothing is noted along a run whose inputs are never noted. -/
theorem observe_eq_nil {is : List ι} (h : ∀ t, ∀ i ∈ is, note t i = []) (s : σ) :
    observe emits note s is = [] := by
  induction is generalizing s with
  | nil => rfl
  | cons i is ih =>
    rw [observe, h s i (List.mem_cons_self ..), List.nil_append]
    exact ih (fun t j hj ↦ h t j (List.mem_cons_of_mem i hj)) _

/-- History rule: a fact about the state and everything noted so far, which every step
preserves, holds after every run. -/
theorem observe_history {P : σ → List κ → Prop} {s : σ} (base : P s [])
    (hstep : ∀ t seen i, P t seen → P (emits t i).1 (seen ++ note t i)) (is : List ι) :
    P (emit emits s is).1 (observe emits note s is) := by
  induction is using List.reverseRecOn with
  | nil => exact base
  | append_singleton is i ih =>
    rw [observe_concat, emit_concat]
    exact hstep _ _ i ih

/-- History rule for both: a fact about the state, everything noted and everything put out so
far, which the steps of the run preserve, holds after the run. -/
theorem emit_observe_history {P : σ → List κ → List ο → Prop} {s : σ} (base : P s [] [])
    {is : List ι} (hstep : ∀ t seen out, ∀ i ∈ is, P t seen out →
      P (emits t i).1 (seen ++ note t i) (out ++ (emits t i).2)) :
    P (emit emits s is).1 (observe emits note s is) (emit emits s is).2 := by
  induction is using List.reverseRecOn with
  | nil => exact base
  | append_singleton is i ih =>
    rw [observe_concat, emit_concat]
    apply hstep
    · simp
    · apply ih
      intro t seen out j hj
      exact hstep t seen out j (List.mem_append_left _ hj)

end Emit

end MonitoringRobot.Base.Machine
