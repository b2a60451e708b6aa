
namespace Bytesmith.Outcome

variable {ε σ α β : Type} {x : EStateM ε σ α} {f : α → EStateM ε σ β} {s s' : σ}

theorem bind_of_ok {a : α} (h : x s = .ok a s') : (x >>= f) s = f a s' := by
  change EStateM.bind x f s = f a s'
  rw [EStateM.bind, h]

theorem bind_of_error {e : ε} (h : x s = .error e s') : (x >>= f) s = .error e s' := by
  change EStateM.bind x f s = _
  rw [EStateM.bind, h]

theorem get_bind {f : σ → EStateM ε σ β} : (get >>= f) s = f s s := rfl

theorem set_bind {f : PUnit → EStateM ε σ β} : (set s' >>= f) s = f ⟨⟩ s' := rfl

theorem bind_eq_ok {b : β} : (x >>= f) s = .ok b s' ↔ ∃ a t, x s = .ok a t ∧ f a t = .ok b s' := by
  constructor
  · intro h
    cases hx : x s with
    | ok a t =>
      rw [bind_of_ok hx] at h
      exact ⟨a, t, rfl, h⟩
    | error e t =>
      rw [bind_of_error hx] at h
      cases h
  · rintro ⟨a, t, hx, hf⟩
    rw [bind_of_ok hx, hf]

theorem bind_eq_error {e : ε} : (x >>= f) s = .error e s' ↔
    x s = .error e s' ∨ ∃ a t, x s = .ok a t ∧ f a t = .error e s' := by
  cases hx : x s with
  | ok a t =>
    rw [bind_of_ok hx]
    constructor
    · exact fun h => .inr ⟨a, t, rfl, h⟩
    · rintro (h | ⟨a', t', h, hf⟩) <;> cases h
      exact hf
  | error err t =>
    rw [bind_of_error hx]
    simp

theorem map_eq_ok {g : α → β} {b : β} : (g <$> x) s = .ok b s' ↔ ∃ a, x s = .ok a s' ∧ g a = b := by
  rw [map_eq_pure_bind, bind_eq_ok]
  constructor
  · rintro ⟨a, t, hx, h⟩
    cases h
    exact ⟨a, hx, rfl⟩
  · rintro ⟨a, hx, rfl⟩
    exact ⟨a, s', hx, rfl⟩

theorem map_eq_error {g : α → β} {e : ε} : (g <$> x) s = .error e s' ↔ x s = .error e s' := by
  rw [map_eq_pure_bind, bind_eq_error]
  constructor
  · rintro (h | ⟨a, t, -, h⟩)
    · exact h
    · cases h
  · exact .inl

theorem guard_eq_ok {γ : Type} {c : Prop} [Decidable c] {e : ε} {g : γ → EStateM ε σ β}
    {y : EStateM ε σ β} {b : β} :
    (if c then throw e >>= g else y) s = .ok b s' ↔ ¬ c ∧ y s = .ok b s' := by
  by_cases h : c
  · rw [if_pos h]
    simp only [h, not_true, false_and, iff_false]
    intro hthrow
    cases hthrow
  · rw [if_neg h]
    simp only [h, not_false_iff, true_and]

def final : EStateM.Result ε σ α → σ
  | .ok _ s => s
  | .error _ s => s

theorem final_map (g : α → β) : final ((g <$> x) s) = final (x s) := by
  cases h : x s with
  | ok a t => rw [map_eq_ok.mpr ⟨a, h, rfl⟩, final, final]
  | error e t => rw [map_eq_error.mpr h, final, final]

/-- However the computation ends, the state it leaves is related to the one it started in. -/
def Leads (R : σ → σ → Prop) (x : EStateM ε σ α) : Prop := ∀ s, R s (final (x s))

def Preserves (P : σ → Prop) (s s' : σ) : Prop := P s → P s'

instance (P : σ → Prop) : Std.Refl (Preserves P) := ⟨fun _ h => h⟩

instance (P : σ → Prop) : Trans (Preserves P) (Preserves P) (Preserves P) :=
  ⟨fun h h' hs => h' (h hs)⟩

variable {R : σ → σ → Prop}

theorem Leads.of_ok {a : α} (h : Leads R x) (hx : x s = .ok a s') : R s s' := by
  have hs := h s
  rwa [hx] at hs

theorem Leads.of_error {e : ε} (h : Leads R x) (hx : x s = .error e s') : R s s' := by
  have hs := h s
  rwa [hx] at hs

theorem Leads.mono {R' : σ → σ → Prop} (h : Leads R x) (hR : ∀ s s', R s s' → R' s s') :
    Leads R' x := fun s => hR _ _ (h s)

theorem Leads.of_state [Std.Refl R] (h : ∀ s, final (x s) = s) : Leads R x := by
  intro s
  rw [h s]
  exact Std.Refl.refl s

theorem Leads.pure [Std.Refl R] (a : α) : Leads R (pure a : EStateM ε σ α) :=
  .of_state fun _ => rfl

theorem Leads.throw [Std.Refl R] (e : ε) : Leads R (throw e : EStateM ε σ α) :=
  .of_state fun _ => rfl

theorem related_bind [Trans R R R] (hx : R s (final (x s)))
    (hf : ∀ a t, x s = .ok a t → R t (final (f a t))) : R s (final ((x >>= f) s)) := by
  cases h : x s with
  | ok a t =>
    rw [bind_of_ok h]
    rw [h] at hx
    exact Trans.trans hx (hf a t h)
  | error e t =>
    rw [bind_of_error h]
    rwa [h] at hx

theorem Leads.bind [Trans R R R] (hx : Leads R x) (hf : ∀ a, Leads R (f a)) :
    Leads R (x >>= f) := fun s => related_bind (hx s) fun a t _ => hf a t

theorem Leads.guard [Std.Refl R] {γ : Type} {c : Prop} [Decidable c] {e : ε}
    {g : γ → EStateM ε σ β} {y : EStateM ε σ β} (h : Leads R y) :
    Leads R (if c then MonadExcept.throw e >>= g else y) := by
  by_cases hc : c
  · rw [if_pos hc]
    exact .of_state fun _ => rfl
  · rw [if_neg hc]
    exact h

theorem Leads.get_bind {f : σ → EStateM ε σ β} (h : ∀ s, Leads R (f s)) : Leads R (get >>= f) :=
  fun s => h s s

theorem Leads.map [Std.Refl R] [Trans R R R] (hx : Leads R x) (g : α → β) : Leads R (g <$> x) := by
  rw [map_eq_pure_bind]
  exact hx.bind fun a => .pure (g a)

theorem Leads.forM [Std.Refl R] [Trans R R R] {f : α → EStateM ε σ PUnit}
    (hf : ∀ a, Leads R (f a)) (as : List α) : Leads R (as.forM f) := by
  induction as with
  | nil => exact .pure PUnit.unit
  | cons a as ih => exact (hf a).bind fun _ => ih

theorem Leads.mapM [Std.Refl R] [Trans R R R] {f : α → EStateM ε σ β} (hf : ∀ a, Leads R (f a))
    (as : List α) : Leads R (as.mapM f) := by
  induction as with
  | nil => exact .pure []
  | cons a as ih =>
    rw [List.mapM_cons]
    exact (hf a).bind fun _ => ih.bind fun _ => .pure _

theorem except_bind_eq_ok {x : Except ε α} {f : α → Except ε β} {b : β} :
    (x >>= f) = .ok b ↔ ∃ a, x = .ok a ∧ f a = .ok b := by
  cases x with
  | ok a =>
    constructor
    · exact fun h => ⟨a, rfl, h⟩
    · rintro ⟨a', ha, h⟩
      cases ha
      exact h
  | error e =>
    constructor
    · intro h
      cases h
    · rintro ⟨a, ha, -⟩
      cases ha

theorem except_guard_eq_ok {γ : Type} {c : Prop} [Decidable c] {e : ε} {g : γ → Except ε β}
    {y : Except ε β} {b : β} :
    (if c then throw e >>= g else y) = .ok b ↔ ¬ c ∧ y = .ok b := by
  by_cases h : c
  · rw [if_pos h]
    simp only [h, not_true, false_and, iff_false]
    intro hthrow
    cases hthrow
  · rw [if_neg h]
    simp only [h, not_false_iff, true_and]

theorem except_forM_eq_ok {f : α → Except ε Unit} {as : List α} {u : Unit}
    (h : as.forM f = .ok u) : ∀ a ∈ as, f a = .ok () := by
  induction as with
  | nil => exact fun _ ha => nomatch ha
  | cons a as ih =>
    obtain ⟨u', hu, h⟩ := except_bind_eq_ok.mp h
    intro b hb
    obtain rfl | hb := List.mem_cons.mp hb
    · exact hu
    · exact ih h b hb

theorem except_mapM_eq_ok {f : α → Except ε β} {as : List α} {bs : List β}
    (h : as.mapM f = .ok bs) : bs.length = as.length ∧
      ∀ (i : Nat) (a : α), as[i]? = some a → ∃ b, bs[i]? = some b ∧ f a = .ok b := by
  induction as generalizing bs with
  | nil =>
    cases h
    exact ⟨rfl, nofun⟩
  | cons a as ih =>
    rw [List.mapM_cons] at h
    obtain ⟨b, hb, h⟩ := except_bind_eq_ok.mp h
    obtain ⟨bs', hbs, h⟩ := except_bind_eq_ok.mp h
    cases h
    obtain ⟨hlength, hall⟩ := ih hbs
    refine ⟨congrArg (· + 1) hlength, fun i a' ha => ?_⟩
    cases i with
    | zero =>
      cases ha
      exact ⟨b, rfl, hb⟩
    | succ i => exact hall i a' ha

end Bytesmith.Outcome
