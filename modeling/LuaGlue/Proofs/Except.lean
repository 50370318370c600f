import Mathlib.Data.List.Forall2

/-!
# Computations that may fail

When a computation in `Except` succeeds, read off step by step: a sequence of two succeeds when both
do (`bind_eq_ok`), a loop over a list when it does so at every item (`mapM_eq_ok`, `forM_eq_ok`). Lists
that a loop relates item by item are `List.Forall₂`.
-/

namespace List.Forall₂

variable {α β γ : Type} {R : α → β → Prop} {l : List α} {bs : List β}

theorem exists_of_mem_left (h : Forall₂ R l bs) {a : α} (ha : a ∈ l) : ∃ b ∈ bs, R a b := by
  induction h with
  | nil => cases ha
  | cons hab _ ih =>
    rcases List.mem_cons.mp ha with rfl | ha
    · exact ⟨_, by simp, hab⟩
    · obtain ⟨b, hb, hrel⟩ := ih ha
      exact ⟨b, by simp [hb], hrel⟩

theorem exists_of_mem_right (h : Forall₂ R l bs) {b : β} (hb : b ∈ bs) : ∃ a ∈ l, R a b := by
  obtain ⟨a, ha, hrel⟩ := exists_of_mem_left (R := Function.swap R) h.flip hb
  exact ⟨a, ha, hrel⟩

/-- What is made of the items that pass a test is what is made of those related to them. -/
theorem map_filter_eq {g : α → γ} {k : β → γ} {p : α → Bool} {q : β → Bool} (h : Forall₂ R l bs)
    (hgk : ∀ {a b}, R a b → k b = g a) (hpq : ∀ {a b}, R a b → q b = p a) :
    (bs.filter q).map k = (l.filter p).map g := by
  induction h with
  | nil => rfl
  | cons hab _ ih =>
    rw [List.filter_cons, List.filter_cons, hpq hab]
    split
    · rw [List.map_cons, List.map_cons, hgk hab, ih]
    · exact ih

theorem map_eq {g : α → γ} {k : β → γ} (h : Forall₂ R l bs) (hgk : ∀ {a b}, R a b → k b = g a) :
    bs.map k = l.map g := by
  have hall := h.map_filter_eq (p := fun _ => true) (q := fun _ => true) hgk fun _ => rfl
  simpa using hall

end List.Forall₂

namespace Except

variable {ε ε' α β : Type}

@[simp] theorem ok_bind (a : α) (f : α → Except ε β) : (Except.ok a >>= f) = f a := rfl

@[simp] theorem error_bind (e : ε) (f : α → Except ε β) : (Except.error e >>= f) = .error e := rfl

@[simp] theorem pure_eq_ok_iff {a b : α} : (pure a : Except ε α) = .ok b ↔ a = b := by
  constructor
  · intro h; cases h; rfl
  · intro h; rw [h]; rfl

theorem bind_eq_ok {x : Except ε α} {f : α → Except ε β} {b : β} :
    (x >>= f) = .ok b ↔ ∃ a, x = .ok a ∧ f a = .ok b := by
  cases x <;> simp

/-- What follows a branching is the end of both branches. -/
theorem ite_bind_eq_ok {p : Prop} [Decidable p] {x y : Except ε α} {f : α → Except ε β} {b : β} :
    (if p then x >>= f else y >>= f) = .ok b ↔ ∃ a, (if p then x else y) = .ok a ∧ f a = .ok b := by
  rw [← bind_eq_ok, apply_ite (· >>= f)]

/-- What is made of a result at the end does not matter for success. -/
theorem bind_pure_ok_iff {x : Except ε α} {f : α → β} :
    (∃ b, (x >>= fun a => pure (f a)) = .ok b) ↔ ∃ a, x = .ok a := by
  simp only [bind_eq_ok, pure_eq_ok_iff]
  exact ⟨fun ⟨_, a, ha, _⟩ => ⟨a, ha⟩, fun ⟨a, ha⟩ => ⟨f a, a, ha, rfl⟩⟩

theorem bind_bind_pure_ok_iff {γ : Type} {x : Except ε α} {y : Except ε β} {f : α → β → γ} :
    (∃ c, (x >>= fun a => y >>= fun b => pure (f a b)) = .ok c) ↔
      (∃ a, x = .ok a) ∧ ∃ b, y = .ok b := by
  simp only [bind_eq_ok, pure_eq_ok_iff]
  exact ⟨fun ⟨_, a, ha, b, hb, _⟩ => ⟨⟨a, ha⟩, b, hb⟩,
    fun ⟨⟨a, ha⟩, b, hb⟩ => ⟨f a b, a, ha, b, hb, rfl⟩⟩

theorem map_eq_ok {x : Except ε α} {f : α → β} {b : β} :
    x.map f = .ok b ↔ ∃ a, x = .ok a ∧ f a = b := by
  cases x <;> simp [Except.map]

theorem map_eq_error {x : Except ε α} {f : α → β} {e : ε} : x.map f = .error e ↔ x = .error e := by
  cases x <;> simp [Except.map]

@[simp] theorem mapError_eq_ok {x : Except ε α} {f : ε → ε'} {a : α} :
    x.mapError f = .ok a ↔ x = .ok a := by
  cases x <;> simp [Except.mapError]

theorem mapM_eq_ok {f : α → Except ε β} {l : List α} {bs : List β} :
    l.mapM f = .ok bs ↔ List.Forall₂ (fun a b => f a = .ok b) l bs := by
  induction l generalizing bs with
  | nil => rw [List.mapM_nil, pure_eq_ok_iff, List.forall₂_nil_left_iff, eq_comm]
  | cons a l ih =>
    rw [List.mapM_cons, bind_eq_ok, List.forall₂_cons_left_iff]
    simp only [bind_eq_ok, pure_eq_ok_iff, ih]
    constructor
    · rintro ⟨b, hb, bs', hbs, rfl⟩; exact ⟨b, bs', hb, hbs, rfl⟩
    · rintro ⟨b, bs', hb, hbs, rfl⟩; exact ⟨b, hb, bs', hbs, rfl⟩

theorem exists_of_mapM {f : α → Except ε β} {l : List α} {bs : List β} (h : l.mapM f = .ok bs)
    {a : α} (ha : a ∈ l) : ∃ b ∈ bs, f a = .ok b :=
  (mapM_eq_ok.mp h).exists_of_mem_left ha

/-- A loop over the items with their numbers succeeds at every item. -/
theorem exists_of_mapM_zipIdx {f : α × Nat → Except ε β} {l : List α} {bs : List β}
    (h : l.zipIdx.mapM f = .ok bs) {a : α} (ha : a ∈ l) : ∃ i b, f (a, i) = .ok b := by
  obtain ⟨i, hi⟩ := List.mem_iff_getElem?.mp ha
  obtain ⟨b, -, hb⟩ := exists_of_mapM h (List.mk_mem_zipIdx_iff_getElem?.mpr hi)
  exact ⟨i, b, hb⟩

theorem exists_of_mem_mapM {f : α → Except ε β} {l : List α} {bs : List β} (h : l.mapM f = .ok bs)
    {b : β} (hb : b ∈ bs) : ∃ a ∈ l, f a = .ok b :=
  (mapM_eq_ok.mp h).exists_of_mem_right hb

/-- What a loop makes of the items that pass a test is what passes the test on the results. -/
theorem map_filter_of_mapM {γ : Type} {f : α → Except ε β} {g : α → γ} {k : β → γ} {p : α → Bool}
    {q : β → Bool} {l : List α} {bs : List β} (hfg : ∀ {a b}, f a = .ok b → k b = g a)
    (hpq : ∀ {a b}, f a = .ok b → q b = p a) (h : l.mapM f = .ok bs) :
    (bs.filter q).map k = (l.filter p).map g :=
  (mapM_eq_ok.mp h).map_filter_eq hfg hpq

theorem map_of_mapM {γ : Type} {f : α → Except ε β} {g : α → γ} {k : β → γ} {l : List α}
    {bs : List β} (hfg : ∀ {a b}, f a = .ok b → k b = g a) (h : l.mapM f = .ok bs) :
    bs.map k = l.map g :=
  (mapM_eq_ok.mp h).map_eq hfg

theorem mapM_congr {f g : α → Except ε β} {l : List α} (h : ∀ a ∈ l, f a = g a) :
    l.mapM f = l.mapM g := by
  induction l with
  | nil => rfl
  | cons a l ih =>
    rw [List.mapM_cons, List.mapM_cons, h a (by simp), ih fun a ha => h a (by simp [ha])]

/-- A loop that succeeds does so up to an item, at the item and from there on. -/
theorem mapM_split {f : α → Except ε β} {l₁ l₂ : List α} {a : α} {bs : List β}
    (h : (l₁ ++ a :: l₂).mapM f = .ok bs) :
    ∃ bs₁ b bs₂, bs = bs₁ ++ b :: bs₂ ∧ l₁.mapM f = .ok bs₁ ∧ f a = .ok b ∧ l₂.mapM f = .ok bs₂ := by
  rw [List.mapM_append, bind_eq_ok] at h
  obtain ⟨bs₁, hbefore, h⟩ := h
  rw [bind_eq_ok] at h
  obtain ⟨rest, hrest, h⟩ := h
  rw [List.mapM_cons, bind_eq_ok] at hrest
  obtain ⟨b, ha, hrest⟩ := hrest
  obtain ⟨bs₂, hafter, hrest⟩ := bind_eq_ok.mp hrest
  cases hrest
  cases h
  exact ⟨bs₁, b, bs₂, rfl, hbefore, ha, hafter⟩

theorem mapM_mono {f g : α → Except ε β} {l : List α} {bs : List β}
    (h : ∀ a ∈ l, ∀ b, f a = .ok b → g a = .ok b) (hf : l.mapM f = .ok bs) : l.mapM g = .ok bs := by
  have hall := mapM_eq_ok.mp hf
  refine mapM_eq_ok.mpr (List.forall₂_iff_zip.mpr ⟨hall.length_eq, ?_⟩)
  intro a b hab
  exact h a (List.of_mem_zip hab).1 b (List.forall₂_zip hall hab)

/-- A loop over changed items gives what the loop over the items themselves does, if each step does. -/
theorem mapM_map {γ : Type} {f : α → Except ε β} {g : γ → Except ε β} {k : α → γ} {l : List α}
    {bs : List β} (h : ∀ a ∈ l, ∀ b, f a = .ok b → g (k a) = .ok b) (hf : l.mapM f = .ok bs) :
    (l.map k).mapM g = .ok bs := by
  have hall := mapM_eq_ok.mp (mapM_mono (g := g ∘ k) h hf)
  exact mapM_eq_ok.mpr (List.forall₂_map_left_iff.mpr hall)

/-- A loop over numbered items takes back what was made of them, if each step does. -/
theorem mapM_zipIdx_map {f : α → β} {g : β × Nat → Except ε α} {l : List α} {n : Nat}
    (h : ∀ a ∈ l, ∀ i, g (f a, i) = .ok a) : ((l.map f).zipIdx n).mapM g = .ok l := by
  induction l generalizing n with
  | nil => rfl
  | cons a l ih =>
    rw [List.map_cons, List.zipIdx_cons, List.mapM_cons, h a (by simp), ih fun a ha => h a (by simp [ha])]
    rfl

/-- A loop succeeds when it does so at every item. -/
theorem mapM_ok_iff {f : α → Except ε β} {l : List α} :
    (∃ bs, l.mapM f = .ok bs) ↔ ∀ a ∈ l, ∃ b, f a = .ok b := by
  constructor
  · rintro ⟨bs, h⟩ a ha
    obtain ⟨b, -, hb⟩ := exists_of_mapM h ha
    exact ⟨b, hb⟩
  · intro h
    induction l with
    | nil => exact ⟨[], rfl⟩
    | cons a l ih =>
      obtain ⟨b, hb⟩ := h a (by simp)
      obtain ⟨bs, hbs⟩ := ih fun a ha => h a (by simp [ha])
      exact ⟨b :: bs, mapM_eq_ok.mpr (.cons hb (mapM_eq_ok.mp hbs))⟩

/-- What every step of a loop keeps, the loop keeps. -/
theorem foldlM_invariant {f : β → α → Except ε β} {P : β → Prop} {l : List α} {b b' : β}
    (hstep : ∀ b b', ∀ a ∈ l, P b → f b a = .ok b' → P b') (hb : P b)
    (h : l.foldlM f b = .ok b') : P b' := by
  induction l generalizing b with
  | nil => rw [List.foldlM_nil, pure_eq_ok_iff] at h; exact h ▸ hb
  | cons a l ih =>
    rw [List.foldlM_cons] at h
    obtain ⟨mid, hmid, hrest⟩ := bind_eq_ok.mp h
    exact ih (fun b b' a ha => hstep b b' a (by simp [ha])) (hstep b mid a (by simp) hb hmid) hrest

theorem foldlM_snoc {f : β → α → Except ε β} {l : List α} {a : α} {b b' : β} :
    (l ++ [a]).foldlM f b = .ok b' ↔ ∃ mid, l.foldlM f b = .ok mid ∧ f mid a = .ok b' := by
  simp only [List.foldlM_append, List.foldlM_cons, List.foldlM_nil, bind_pure, bind_eq_ok]

/-- A loop fails as one of its steps does. -/
theorem error_of_foldlM {f : β → α → Except ε β} {P : ε → Prop} {l : List α} {b : β} {err : ε}
    (hstep : ∀ b, ∀ a ∈ l, ∀ e, f b a = .error e → P e) (h : l.foldlM f b = .error err) : P err := by
  induction l generalizing b with
  | nil => cases h
  | cons a l ih =>
    rw [List.foldlM_cons] at h
    cases hb : f b a with
    | error e =>
      rw [hb] at h
      cases h
      exact hstep b a (by simp) _ hb
    | ok mid =>
      rw [hb] at h
      exact ih (fun b a ha => hstep b a (by simp [ha])) h

theorem forM_eq_ok {f : α → Except ε Unit} {l : List α} :
    l.forM f = .ok () ↔ ∀ a ∈ l, f a = .ok () := by
  induction l with
  | nil => simp [pure, Except.pure]
  | cons a l ih =>
    rw [List.forall_mem_cons, ← ih, List.forM_eq_forM, List.forM_cons, bind_eq_ok]
    exact ⟨fun ⟨_, ha, hl⟩ => ⟨ha, hl⟩, fun ⟨ha, hl⟩ => ⟨(), ha, hl⟩⟩

end Except
