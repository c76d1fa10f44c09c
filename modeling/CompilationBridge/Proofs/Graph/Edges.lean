import CompilationBridge.Proofs.Graph.Links

/-! Adding and withdrawing references. An edge is added or withdrawn at all its records together: with
the reference goes the edge back, unless another variant of the referring project still has the same
target, and the entry in the list of those that wait. A variant that nothing refers to can go. -/

namespace CompilationBridge.Graph.Store

variable {s s' : Store} {g : Variant → Variant} {next : Nat}

theorem Linked.withdraw (hs : s.Sound next) (hl : s.Linked) (hi : Image s s' g) (hg : s.Keeps g) {id : Nat}
    {v : Variant} {q : String} (hv : s.Has id v) (hq : s.path? id = some q) (dropped : List Handle)
    (hget : ∀ {i w}, s.Has i w → ∀ path t, (g w).projectRefs.get? path = some t →
      w.projectRefs.get? path = some t)
    (hrefs : ∀ {i w}, s.Has i w → ∀ t, ((g w).RefersTo t ↔
      w.RefersTo t ∧ ¬(w.handle = v.handle ∧ t ∈ dropped)))
    (hreg : ∀ {i w}, s.Has i w → (g w).registered = w.registered)
    (hpend : ∀ {i w}, s.Has i w → (g w).pending =
      if w.handle ∈ dropped then w.pending.erase v.handle else w.pending)
    (hkept : ∀ {i t}, s.Has i t →
      (t.handle ∉ dropped ∨ ∃ w, s.Has id w ∧ w.handle ≠ v.handle ∧ w.RefersTo t.handle) →
      (g t).dependees = t.dependees)
    (hcut : ∀ {i t}, s.Has i t → t.handle ∈ dropped →
      (¬∃ w, s.Has id w ∧ w.handle ≠ v.handle ∧ w.RefersTo t.handle) →
      (g t).dependees = t.dependees.erase q) : s'.Linked := by
  have hself : ∀ {a w}, s.Has a w → w.handle = v.handle → a = id :=
    fun hw hh => (hs.handle_inj hw hv hh).1
  refine Linked.of_image hi hg ?_ ?_ ?_ ?_ ?_
  · intro i w path t hw hpath
    exact hl.target hw (hget hw path t hpath)
  · intro j t ht q' a
    by_cases hd : t.handle ∈ dropped
    · by_cases hother : ∃ w, s.Has id w ∧ w.handle ≠ v.handle ∧ w.RefersTo t.handle
      · rw [hkept ht (Or.inr hother), hl.dependee ht q' a]
        refine and_congr_right fun _ => ?_
        constructor
        · rintro ⟨w, hw, hr⟩
          by_cases hh : w.handle = v.handle
          · obtain ⟨u, hu, hne, hru⟩ := hother
            obtain rfl := hself hw hh
            exact ⟨u, hu, (hrefs hu _).2 ⟨hru, fun h => hne h.1⟩⟩
          · exact ⟨w, hw, (hrefs hw _).2 ⟨hr, fun h => hh h.1⟩⟩
        · rintro ⟨w, hw, hr⟩
          exact ⟨w, hw, ((hrefs hw _).1 hr).1⟩
      · rw [hcut ht hd hother, Table.get?_erase]
        split
        · rename_i hqq
          subst hqq
          constructor
          · intro h
            cases h
          · rintro ⟨ha, w, hw, hr⟩
            obtain rfl := path_inj ha hq
            have hr' := (hrefs hw _).1 hr
            exact absurd ⟨w, hw, fun hh => hr'.2 ⟨hh, hd⟩, hr'.1⟩ hother
        · rename_i hqq
          rw [hl.dependee ht q' a]
          refine and_congr_right fun ha => exists_congr fun w => and_congr_right fun hw => ?_
          rw [hrefs hw]
          refine ⟨fun hr => ⟨hr, fun h => hqq ?_⟩, fun h => h.1⟩
          obtain rfl := hself hw h.1
          exact Option.some.inj (ha.symm.trans hq)
    · rw [hkept ht (Or.inl hd), hl.dependee ht q' a]
      refine and_congr_right fun _ => exists_congr fun w => and_congr_right fun hw => ?_
      rw [hrefs hw]
      exact ⟨fun hr => ⟨hr, fun h => hd h.2⟩, fun h => h.1⟩
  · intro j t ht
    rw [hpend ht]
    split
    · exact (hl.nodup ht).erase _
    · exact hl.nodup ht
  · intro j t ht hr
    rw [hreg ht] at hr
    rw [hpend ht, hl.settled ht hr, List.erase_nil, ite_self]
  · intro j t ht hr k
    rw [hreg ht] at hr
    have hcongr : (∃ a w, s.Has a w ∧ w.handle = k ∧ (g w).RefersTo t.handle) ↔
        k ∈ t.pending ∧ ¬(k = v.handle ∧ t.handle ∈ dropped) := by
      rw [hl.waiting ht hr]
      constructor
      · rintro ⟨a, w, hw, rfl, h⟩
        have h' := (hrefs hw _).1 h
        exact ⟨⟨a, w, hw, rfl, h'.1⟩, h'.2⟩
      · rintro ⟨⟨a, w, hw, rfl, h⟩, hnot⟩
        exact ⟨a, w, hw, rfl, (hrefs hw _).2 ⟨h, hnot⟩⟩
    rw [hcongr, hpend ht]
    split
    · rename_i hd
      rw [(hl.nodup ht).mem_erase_iff]
      exact ⟨fun h => ⟨h.2, fun hk => h.1 hk.1⟩, fun h => ⟨fun hk => h.2 ⟨hk, hd⟩, h.1⟩⟩
    · rename_i hd
      exact ⟨fun h => ⟨h, fun hk => hd hk.2⟩, fun h => h.1⟩

theorem Linked.link (hs : s.Sound next) (hl : s.Linked) (hi : Image s s' g) (hg : s.Keeps g) {id j : Nat}
    {v : Variant} {q path : String} {t : Handle} (hv : s.Has id v) (hq : s.path? id = some q)
    (ht : s.Owns j t) (hj : s.path? j = some path) (hnew : v.projectRefs.get? path = none)
    (hget : ∀ {i w}, s.Has i w → ∀ p, (g w).projectRefs.get? p =
      if w.handle = v.handle ∧ p = path then some t else w.projectRefs.get? p)
    (hreg : ∀ {i w}, s.Has i w → (g w).registered = w.registered)
    (hsettled : ∀ {i w}, s.Has i w → w.registered = true → (g w).pending = w.pending)
    (hwaiting : ∀ {i w}, s.Has i w → w.registered = false → (g w).pending.Nodup ∧
      ∀ k, (k ∈ (g w).pending ↔ k ∈ w.pending ∨ (w.handle = t ∧ k = v.handle)))
    (hdeps : ∀ {i w}, s.Has i w → ∀ x, (g w).dependees.get? x =
      if w.handle = t ∧ x = q then some id else w.dependees.get? x) : s'.Linked := by
  have hself : ∀ {a w}, s.Has a w → w.handle = v.handle → a = id ∧ w = v :=
    fun hw hh => hs.handle_inj hw hv hh
  have hrefs : ∀ {i w}, s.Has i w → ∀ x, ((g w).RefersTo x ↔
      w.RefersTo x ∨ (w.handle = v.handle ∧ x = t)) := by
    intro i w hw x
    constructor
    · rintro ⟨p, hp⟩
      rw [hget hw p] at hp
      split at hp
      · rename_i h
        exact Or.inr ⟨h.1, (Option.some.inj hp).symm⟩
      · exact Or.inl ⟨p, hp⟩
    · rintro (⟨p, hp⟩ | ⟨hh, rfl⟩)
      · refine ⟨p, ?_⟩
        rw [hget hw p, if_neg]
        · exact hp
        · rintro ⟨hh, rfl⟩
          rw [(hself hw hh).2, hnew] at hp
          cases hp
      · exact ⟨path, by rw [hget hw path, if_pos ⟨hh, rfl⟩]⟩
  refine Linked.of_image hi hg ?_ ?_ ?_ ?_ ?_
  · intro i w p x hw hp
    rw [hget hw p] at hp
    split at hp
    · rename_i h
      exact ⟨j, Option.some.inj hp ▸ ht, h.2 ▸ hj⟩
    · exact hl.target hw hp
  · intro i w hw x a
    rw [hdeps hw x]
    split
    · rename_i h
      constructor
      · intro ha
        obtain rfl := Option.some.inj ha
        exact ⟨h.2 ▸ hq, v, hv, (hrefs hv _).2 (Or.inr ⟨rfl, h.1⟩)⟩
      · rintro ⟨ha, -⟩
        rw [path_inj ha (h.2 ▸ hq)]
    · rename_i h
      rw [hl.dependee hw x a]
      refine and_congr_right fun ha => exists_congr fun u => and_congr_right fun hu => ?_
      rw [hrefs hu]
      refine ⟨Or.inl, ?_⟩
      rintro (hr | ⟨hh, ht'⟩)
      · exact hr
      · obtain ⟨rfl, -⟩ := hself hu hh
        exact absurd ⟨ht', Option.some.inj (ha.symm.trans hq)⟩ h
  · intro i w hw
    cases hr : w.registered with
    | true =>
        rw [hsettled hw hr]
        exact hl.nodup hw
    | false => exact (hwaiting hw hr).1
  · intro i w hw hr
    rw [hreg hw] at hr
    rw [hsettled hw hr, hl.settled hw hr]
  · intro i w hw hr k
    rw [hreg hw] at hr
    rw [(hwaiting hw hr).2, hl.waiting hw hr]
    constructor
    · rintro (⟨a, u, hu, hk, hru⟩ | ⟨hh, rfl⟩)
      · exact ⟨a, u, hu, hk, (hrefs hu _).2 (Or.inl hru)⟩
      · exact ⟨id, v, hv, rfl, (hrefs hv _).2 (Or.inr ⟨rfl, hh⟩)⟩
    · rintro ⟨a, u, hu, rfl, hru⟩
      rcases (hrefs hu _).1 hru with hru | ⟨hh, hx⟩
      · exact Or.inl ⟨a, u, hu, rfl, hru⟩
      · exact Or.inr ⟨hx, hh⟩

/-! ### Removal -/

theorem Sound.removeVariant (hs : s.Sound next) (h : Handle) : (s.removeVariant h).Sound next where
  clean hi := by
    rw [path?_removeVariant] at hi
    exact hs.clean hi
  handle_inj hu hv := hs.handle_inj (has_removeVariant.1 hu).1 (has_removeVariant.1 hv).1
  name_inj hu hv := hs.name_inj (has_removeVariant.1 hu).1 (has_removeVariant.1 hv).1
  handle_lt hv := hs.handle_lt (has_removeVariant.1 hv).1
  tidy hv := hs.tidy (has_removeVariant.1 hv).1
  unique i := (hs.unique i).sublist (handles_removeVariant s h i)

theorem Linked.removeVariant (hl : s.Linked) {h : Handle} (hin : ∀ {i w}, s.Has i w → ¬w.RefersTo h)
    (hout : ∀ {i w}, s.Has i w → w.handle = h → ∀ t, ¬w.RefersTo t) : (s.removeVariant h).Linked := by
  have hhas : ∀ {i w}, (s.removeVariant h).Has i w ↔ s.Has i w ∧ w.handle ≠ h := has_removeVariant
  constructor
  · intro i w path t hw hpath
    obtain ⟨hw, -⟩ := hhas.1 hw
    obtain ⟨j, ⟨u, hu, rfl⟩, hj⟩ := hl.target hw hpath
    have hne : u.handle ≠ h := fun hh => hin hw ⟨path, hh ▸ hpath⟩
    exact ⟨j, ⟨u, hhas.2 ⟨hu, hne⟩, rfl⟩, (path?_removeVariant ..).trans hj⟩
  · intro j t ht q a
    rw [path?_removeVariant, hl.dependee (hhas.1 ht).1 q a]
    refine and_congr_right fun _ => ?_
    constructor
    · rintro ⟨w, hw, hr⟩
      exact ⟨w, hhas.2 ⟨hw, fun hh => hout hw hh _ hr⟩, hr⟩
    · rintro ⟨w, hw, hr⟩
      exact ⟨w, (hhas.1 hw).1, hr⟩
  · intro j t ht
    exact hl.nodup (hhas.1 ht).1
  · intro j t ht
    exact hl.settled (hhas.1 ht).1
  · intro j t ht hreg k
    rw [hl.waiting (hhas.1 ht).1 hreg]
    constructor
    · rintro ⟨a, w, hw, hk, hr⟩
      exact ⟨a, w, hhas.2 ⟨hw, fun hh => hout hw hh _ hr⟩, hk, hr⟩
    · rintro ⟨a, w, hw, hk, hr⟩
      exact ⟨a, w, (hhas.1 hw).1, hk, hr⟩

end CompilationBridge.Graph.Store
