import Mathlib.Data.List.Perm.Basic

/-!
# Results of fallible steps

When a composed step succeeds: both of a sequence, the step behind a map, and every step of a
traversal.
-/

namespace ContributorGateway

/-- A sequence of two steps succeeds when both do. -/
theorem bind_eq_ok {ε α β : Type} {x : Except ε α} {f : α → Except ε β} {b : β} :
    x >>= f = .ok b ↔ ∃ a, x = .ok a ∧ f a = .ok b := by
  cases x with
  | error e =>
    constructor
    · exact nofun
    · rintro ⟨_, h, -⟩
      cases h
  | ok a =>
    constructor
    · exact fun h => ⟨a, rfl, h⟩
    · rintro ⟨_, h, hf⟩
      cases h
      exact hf

/-- A sequence of two steps fails where the first one does or the second one. -/
theorem bind_eq_error {ε α β : Type} {x : Except ε α} {f : α → Except ε β} {e : ε} :
    x >>= f = .error e ↔ x = .error e ∨ ∃ a, x = .ok a ∧ f a = .error e := by
  cases x with
  | error e' =>
    constructor
    · intro h
      cases h
      exact .inl rfl
    · rintro (h | ⟨_, h, -⟩)
      · cases h
        rfl
      · cases h
  | ok a =>
    constructor
    · exact fun h => .inr ⟨a, rfl, h⟩
    · rintro (h | ⟨_, h, hf⟩)
      · cases h
      · cases h
        exact hf

/-- A mapped step succeeds when the step does. -/
theorem map_eq_ok {ε α β : Type} {x : Except ε α} {f : α → β} {b : β} :
    x.map f = .ok b ↔ ∃ a, x = .ok a ∧ f a = b := by
  cases x with
  | error e =>
    constructor
    · exact nofun
    · rintro ⟨_, h, -⟩
      cases h
  | ok a =>
    constructor
    · exact fun h => ⟨a, rfl, Except.ok.inj h⟩
    · rintro ⟨_, h, hf⟩
      cases h
      exact congrArg Except.ok hf

/-- A result that is one has a value. -/
theorem exists_of_isOk {ε α : Type} {x : Except ε α} (h : x.isOk = true) : ∃ a, x = .ok a := by
  cases x with
  | error e => cases h
  | ok a => exact ⟨a, rfl⟩

/-- A step with another error succeeds when the step does. -/
theorem mapError_eq_ok {ε ε' α : Type} {f : ε → ε'} {x : Except ε α} {a : α} :
    x.mapError f = .ok a ↔ x = .ok a := by
  cases x with
  | error e => exact iff_of_false nofun nofun
  | ok b =>
    constructor
    · rintro ⟨⟩
      rfl
    · rintro ⟨⟩
      rfl

/-- A step over a list succeeds when it does so for every element. -/
theorem mapM_eq_ok {ε α β : Type} {f : α → Except ε β} {l : List α} {l' : List β} :
    l.mapM f = .ok l' ↔ List.Forall₂ (fun a b => f a = .ok b) l l' := by
  induction l generalizing l' with
  | nil =>
    rw [List.mapM_nil, List.forall₂_nil_left_iff]
    exact ⟨fun h => (Except.ok.inj h).symm, fun h => congrArg Except.ok h.symm⟩
  | cons a l ih =>
    rw [List.mapM_cons, List.forall₂_cons_left_iff]
    constructor
    · intro h
      obtain ⟨b, hb, h⟩ := bind_eq_ok.mp h
      obtain ⟨l'', hl, h⟩ := bind_eq_ok.mp h
      exact ⟨b, l'', hb, ih.mp hl, (Except.ok.inj h).symm⟩
    · rintro ⟨b, l'', hb, hl, rfl⟩
      exact bind_eq_ok.mpr ⟨b, hb, bind_eq_ok.mpr ⟨l'', ih.mpr hl, rfl⟩⟩

/-- A step with a known result for every element gives these over the list. -/
theorem mapM_eq_map {ε α β : Type} {f : α → Except ε β} {g : α → β} {l : List α}
    (h : ∀ a ∈ l, f a = .ok (g a)) : l.mapM f = .ok (l.map g) := by
  rw [mapM_eq_ok, List.forall₂_map_right_iff]
  exact List.forall₂_same.mpr h

/-- A traversal whose steps follow those of another has the results of the other, mapped. -/
theorem mapM_map_of_mapM {ε ε' α β γ : Type} {f : α → Except ε β} {g : α → Except ε' γ}
    {k : β → γ} {l : List α} {l' : List β} (h : l.mapM f = .ok l')
    (hstep : ∀ a, ∀ b ∈ l', f a = .ok b → g a = .ok (k b)) : l.mapM g = .ok (l'.map k) := by
  rw [mapM_eq_ok] at h
  rw [mapM_eq_ok]
  induction h with
  | nil => exact List.Forall₂.nil
  | cons hfirst _ ih =>
    refine List.Forall₂.cons (hstep _ _ (List.mem_cons_self ..) hfirst) (ih fun a b hb => ?_)
    exact hstep a b (List.mem_cons_of_mem _ hb)

/-- A fold fails at an element. -/
theorem exists_of_foldlM_eq_error {ε α β : Type} {f : β → α → Except ε β} {l : List α} {b : β}
    {e : ε} (h : l.foldlM f b = .error e) : ∃ b, ∃ a ∈ l, f b a = .error e := by
  induction l generalizing b with
  | nil => cases h
  | cons a l ih =>
    rw [List.foldlM_cons] at h
    rcases bind_eq_error.mp h with hfirst | ⟨b', -, hrest⟩
    · exact ⟨b, a, List.mem_cons_self .., hfirst⟩
    · obtain ⟨b'', a', ha', herror⟩ := ih hrest
      exact ⟨b'', a', List.mem_cons_of_mem a ha', herror⟩

/-- A fold that succeeds does so at every element. -/
theorem exists_of_foldlM_eq_ok {ε α β : Type} {f : β → α → Except ε β} {l : List α} {b b' : β}
    (h : l.foldlM f b = .ok b') : ∀ a ∈ l, ∃ b b', f b a = .ok b' := by
  induction l generalizing b with
  | nil =>
    intro a ha
    cases ha
  | cons a l ih =>
    rw [List.foldlM_cons] at h
    obtain ⟨b₁, hfirst, hrest⟩ := bind_eq_ok.mp h
    exact List.forall_mem_cons.mpr ⟨⟨b, b₁, hfirst⟩, ih hrest⟩

/-- Every result of a traversal is the result of an element. -/
theorem exists_of_mem_mapM {ε α β : Type} {f : α → Except ε β} {l : List α} {l' : List β}
    (h : l.mapM f = .ok l') {b : β} (hb : b ∈ l') : ∃ a ∈ l, f a = .ok b := by
  induction l generalizing l' with
  | nil =>
    obtain rfl := Except.ok.inj h
    cases hb
  | cons a l ih =>
    rw [List.mapM_cons] at h
    obtain ⟨c, hc, h⟩ := bind_eq_ok.mp h
    obtain ⟨l'', hl, h⟩ := bind_eq_ok.mp h
    obtain rfl := Except.ok.inj h
    rcases List.mem_cons.mp hb with rfl | hb
    · exact ⟨a, List.mem_cons_self .., hc⟩
    · obtain ⟨a', ha', hf⟩ := ih hl hb
      exact ⟨a', List.mem_cons_of_mem a ha', hf⟩

/-- A step that succeeds for a whole list succeeds for every member. -/
theorem exists_of_mapM_eq_ok {ε α β : Type} {f : α → Except ε β} {l : List α} {l' : List β}
    (h : l.mapM f = .ok l') {a : α} (ha : a ∈ l) : ∃ b, f a = .ok b := by
  have hall := mapM_eq_ok.mp h
  clear h
  induction hall with
  | nil => cases ha
  | cons hstep _ ih =>
    rcases List.mem_cons.mp ha with rfl | ha
    · exact ⟨_, hstep⟩
    · exact ih ha

/-- A step that succeeds for every element does so over the list. -/
theorem exists_mapM_eq_ok {ε α β : Type} {f : α → Except ε β} {l : List α}
    (h : ∀ a ∈ l, ∃ b, f a = .ok b) : ∃ l', l.mapM f = .ok l' := by
  induction l with
  | nil => exact ⟨[], rfl⟩
  | cons a l ih =>
    obtain ⟨b, hb⟩ := h a (List.mem_cons_self ..)
    obtain ⟨l', hl⟩ := ih fun a' ha' => h a' (List.mem_cons_of_mem a ha')
    exact ⟨b :: l', by rw [List.mapM_cons, hb, hl]; rfl⟩

/-- A step that fails in one way only fails so over a list with an element where it does. -/
theorem mapM_eq_error {ε α β : Type} {f : α → Except ε β} {e : ε} {l : List α}
    (h : ∀ a ∈ l, (∃ b, f a = .ok b) ∨ f a = .error e) (hbad : ∃ a ∈ l, f a = .error e) :
    l.mapM f = .error e := by
  induction l with
  | nil =>
    obtain ⟨a, ha, -⟩ := hbad
    cases ha
  | cons a l ih =>
    rw [List.mapM_cons]
    rcases h a (List.mem_cons_self ..) with ⟨b, hb⟩ | herror
    · have hrest : ∃ a ∈ l, f a = .error e := by
        obtain ⟨a', ha', herror⟩ := hbad
        rcases List.mem_cons.mp ha' with rfl | ha'
        · rw [hb] at herror
          cases herror
        · exact ⟨a', ha', herror⟩
      rw [hb, ih (fun a' ha' => h a' (List.mem_cons_of_mem a ha')) hrest]
      rfl
    · rw [herror]
      rfl

/-- The order of the elements decides only the order of the results. -/
theorem mapM_eq_ok_of_perm {ε α β : Type} {f : α → Except ε β} {l₁ l₂ : List α} {l' : List β}
    (hperm : l₁.Perm l₂) (h : l₂.mapM f = .ok l') :
    ∃ l₁', l₁.mapM f = .ok l₁' ∧ l₁'.Perm l' := by
  obtain ⟨l₁', hl₁', hl'⟩ := List.perm_comp_forall₂ hperm (mapM_eq_ok.mp h)
  exact ⟨l₁', mapM_eq_ok.mpr hl₁', hl'⟩

/-- Checks of all elements succeed when each does. -/
theorem forM_eq_ok {ε α : Type} {f : α → Except ε Unit} {l : List α} :
    forM l f = .ok () ↔ ∀ a ∈ l, f a = .ok () := by
  induction l with
  | nil =>
    constructor
    · intro _ a ha
      cases ha
    · intro _
      rfl
  | cons a l ih =>
    rw [List.forM_cons, bind_eq_ok, List.forall_mem_cons, ih]
    constructor
    · rintro ⟨_, ha, hl⟩
      exact ⟨ha, hl⟩
    · rintro ⟨ha, hl⟩
      exact ⟨(), ha, hl⟩

end ContributorGateway
