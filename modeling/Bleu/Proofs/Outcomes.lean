/-!
# Outcomes

Scoring steps end with a value or a fault. The lemmas here take a sequence of steps apart (`bind_eq_ok`,
`bind_eq_error`) and run one step over a list, item by item (`mapM_cons_eq_ok`, `mapM_eq_ok_iff`, `mapM_around_eq_ok`):
one whose every item has a value (`mapM_ok`, `exists_mapM_iff`), one of lists (`mapM_flatten`, `mem_flatten_of_mapM`),
and one with a first item that is refused (`mapM_cases`, `mapM_eq_error_iff`).
-/
namespace Bleu.Outcomes
variable {β γ ε : Type}

@[simp] theorem ok_bind (value : β) (next : β → Except ε γ) : (Except.ok value >>= next) = next value := rfl

@[simp] theorem error_bind (fault : ε) (next : β → Except ε γ) :
    ((Except.error fault : Except ε β) >>= next) = .error fault := rfl

@[simp] theorem map_ok (f : β → γ) (value : β) : (f <$> (Except.ok value : Except ε β)) = .ok (f value) := rfl

theorem throw_eq_error (fault : ε) : (throw fault : Except ε β) = .error fault := rfl

theorem bind_eq_ok {first : Except ε β} {next : β → Except ε γ} {result : γ} :
    (first >>= next) = .ok result ↔ ∃ value, first = .ok value ∧ next value = .ok result := by
  cases first with
  | error fault => simp
  | ok value => simp

theorem bind_eq_error {first : Except ε β} {next : β → Except ε γ} {fault : ε} :
    (first >>= next) = .error fault ↔
      first = .error fault ∨ ∃ value, first = .ok value ∧ next value = .error fault := by
  cases first with
  | error other => simp
  | ok value => simp

theorem mapError_eq_ok {ε' : Type} {f : ε → ε'} {result : Except ε β} {value : β} :
    result.mapError f = .ok value ↔ result = .ok value := by
  constructor
  · intro same
    cases result with
    | error fault => cases same
    | ok value =>
      cases same
      rfl
  · rintro rfl
    rfl

theorem mapError_eq_error {ε' : Type} {f : ε → ε'} {result : Except ε β} {fault : ε'} :
    result.mapError f = .error fault ↔ ∃ cause, result = .error cause ∧ fault = f cause := by
  constructor
  · intro same
    cases result with
    | error cause =>
      cases same
      exact ⟨cause, rfl, rfl⟩
    | ok value => cases same
  · rintro ⟨cause, rfl, rfl⟩
    rfl

theorem mapM_cons_eq_ok {f : β → Except ε γ} {x : β} {xs : List β} {zs : List γ} :
    (x :: xs).mapM f = .ok zs ↔ ∃ y ys, f x = .ok y ∧ xs.mapM f = .ok ys ∧ zs = y :: ys := by
  simp only [List.mapM_cons, bind_eq_ok, pure, Except.pure, Except.ok.injEq]
  constructor
  · rintro ⟨y, first, ys, rest, rfl⟩
    exact ⟨y, ys, first, rest, rfl⟩
  · rintro ⟨y, ys, first, rest, rfl⟩
    exact ⟨y, first, ys, rest, rfl⟩

/-- A list has results when each of its items has one, in the same place. -/
theorem mapM_eq_ok_iff {f : β → Except ε γ} {xs : List β} {ys : List γ} :
    xs.mapM f = .ok ys ↔
      ys.length = xs.length ∧ ∀ (i : Nat) (y : γ), ys[i]? = some y → ∃ x, xs[i]? = some x ∧ f x = .ok y := by
  induction xs generalizing ys with
  | nil =>
    cases ys with
    | nil => simp [pure, Except.pure]
    | cons y rest => simp [pure, Except.pure]
  | cons x rest ih =>
    rw [mapM_cons_eq_ok]
    constructor
    · rintro ⟨y, others, first, later, rfl⟩
      obtain ⟨length, each⟩ := ih.mp later
      refine ⟨by simp [length], fun i z listed => ?_⟩
      cases i with
      | zero =>
        cases listed
        exact ⟨x, rfl, first⟩
      | succ i => exact each i z listed
    · rintro ⟨length, each⟩
      cases ys with
      | nil => simp at length
      | cons y others =>
        obtain ⟨_, ⟨⟩, first⟩ := each 0 y rfl
        have later := ih.mpr ⟨by simpa using length, fun i z listed => each (i + 1) z listed⟩
        exact ⟨y, others, first, later, rfl⟩

/-- The results of a list around one of its items. -/
theorem mapM_around_eq_ok {f : β → Except ε γ} {before after : List β} {x : β} {zs : List γ} :
    (before ++ x :: after).mapM f = .ok zs ↔ ∃ first y last, before.mapM f = .ok first ∧ f x = .ok y ∧
      after.mapM f = .ok last ∧ zs = first ++ y :: last := by
  induction before generalizing zs with
  | nil =>
    rw [List.nil_append, mapM_cons_eq_ok]
    constructor
    · rintro ⟨y, last, middle, later, rfl⟩
      exact ⟨[], y, last, rfl, middle, later, rfl⟩
    · rintro ⟨first, y, last, start, middle, later, rfl⟩
      cases start
      exact ⟨y, last, middle, later, rfl⟩
  | cons b rest ih =>
    simp only [List.cons_append, mapM_cons_eq_ok, ih]
    constructor
    · rintro ⟨z, _, one, ⟨first, y, last, start, middle, later, rfl⟩, rfl⟩
      exact ⟨z :: first, y, last, ⟨z, first, one, start, rfl⟩, middle, later, rfl⟩
    · rintro ⟨_, y, last, ⟨z, first, one, start, rfl⟩, middle, later, rfl⟩
      exact ⟨z, _, one, ⟨first, y, last, start, middle, later, rfl⟩, rfl⟩

theorem length_of_mapM {f : β → Except ε γ} {xs : List β} {ys : List γ} (mapped : xs.mapM f = .ok ys) :
    ys.length = xs.length := by
  induction xs generalizing ys with
  | nil =>
    cases mapped
    rfl
  | cons x rest ih =>
    obtain ⟨y, others, _, later, rfl⟩ := mapM_cons_eq_ok.mp mapped
    rw [List.length_cons, List.length_cons, ih later]

theorem mapM_ok {f : β → Except ε γ} {g : β → γ} (xs : List β) (defined : ∀ x ∈ xs, f x = .ok (g x)) :
    xs.mapM f = .ok (xs.map g) := by
  induction xs with
  | nil => rfl
  | cons x rest ih =>
    rw [List.mapM_cons, defined x (by simp), ih fun y member => defined y (by simp [member])]
    rfl

theorem mapM_flatten (f : β → Except ε γ) (lists : List (List β)) :
    (do return (← lists.mapM fun xs => xs.mapM f).flatten) = lists.flatten.mapM f := by
  induction lists with
  | nil => rfl
  | cons xs rest ih =>
    rw [List.flatten_cons, List.mapM_append, ← ih, List.mapM_cons]
    simp

/-- Every item has a value, or some items have before a first one that is refused. -/
theorem mapM_cases (f : β → Except ε γ) (xs : List β) :
    (∃ ys, xs.mapM f = .ok ys) ∨
      ∃ before x after ys fault, xs = before ++ x :: after ∧ before.mapM f = .ok ys ∧ f x = .error fault := by
  induction xs with
  | nil => exact .inl ⟨[], rfl⟩
  | cons x rest ih =>
    cases first : f x with
    | error fault => exact .inr ⟨[], x, rest, [], fault, rfl, rfl, first⟩
    | ok y =>
      rcases ih with ⟨ys, scored⟩ | ⟨before, stuck, after, ys, fault, rfl, scored, refused⟩
      · exact .inl ⟨y :: ys, by simp [List.mapM_cons, first, scored]⟩
      · exact .inr ⟨x :: before, stuck, after, y :: ys, fault, rfl, by simp [List.mapM_cons, first, scored], refused⟩

theorem exists_mapM_iff {f : β → Except ε γ} {xs : List β} :
    (∃ ys, xs.mapM f = .ok ys) ↔ ∀ x ∈ xs, ∃ y, f x = .ok y := by
  induction xs with
  | nil => simp [pure, Except.pure]
  | cons x rest ih =>
    rw [List.forall_mem_cons, ← ih]
    constructor
    · rintro ⟨_, mapped⟩
      obtain ⟨y, ys, first, later, _⟩ := mapM_cons_eq_ok.mp mapped
      exact ⟨⟨y, first⟩, ys, later⟩
    · rintro ⟨⟨y, first⟩, ys, later⟩
      exact ⟨y :: ys, mapM_cons_eq_ok.mpr ⟨y, ys, first, later, rfl⟩⟩

/-- A list is refused for its first item that is. -/
theorem mapM_eq_error_iff {f : β → Except ε γ} {xs : List β} {fault : ε} :
    xs.mapM f = .error fault ↔
      ∃ before x after, xs = before ++ x :: after ∧ (∀ y ∈ before, ∃ z, f y = .ok z) ∧ f x = .error fault := by
  constructor
  · intro refused
    rcases mapM_cases f xs with ⟨ys, mapped⟩ | ⟨before, x, after, ys, other, rfl, earlier, stuck⟩
    · cases mapped.symm.trans refused
    · rw [List.mapM_append, earlier, ok_bind, List.mapM_cons, stuck] at refused
      cases refused
      exact ⟨before, x, after, rfl, exists_mapM_iff.mp ⟨ys, earlier⟩, stuck⟩
  · rintro ⟨before, x, after, rfl, earlier, stuck⟩
    obtain ⟨ys, mapped⟩ := exists_mapM_iff.mpr earlier
    rw [List.mapM_append, mapped, ok_bind, List.mapM_cons, stuck]
    rfl

theorem mem_flatten_of_mapM {f : β → Except ε (List γ)} {xs : List β} {lists : List (List γ)}
    (mapped : xs.mapM f = .ok lists) (z : γ) : z ∈ lists.flatten ↔ ∃ x ∈ xs, ∃ ys, f x = .ok ys ∧ z ∈ ys := by
  induction xs generalizing lists with
  | nil =>
    cases mapped
    simp
  | cons x rest ih =>
    obtain ⟨ys, others, first, later, rfl⟩ := mapM_cons_eq_ok.mp mapped
    simp [ih later, first]

end Bleu.Outcomes
