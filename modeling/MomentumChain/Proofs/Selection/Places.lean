import MomentumChain.Selection.Priority

/-!
# Blocks in the places of their accounts

Restoring the heights leaves to each account the places that it has and puts its
blocks there in order of height.  So a list after it is known from two things:
which account each place belongs to, and the blocks of each account in order.

* `map_address_restoreHeights` says that every place keeps its account.
* `ofAccount_restoreHeights` says that the blocks of an account are those of the
  list in order of height.
* `map_eq_of_ofAccount` says that the two determine the list, and whatever is
  read off its blocks.
-/

namespace MomentumChain.Selection

/-- The blocks of an account, in order. -/
def ofAccount (a : Address) (blocks : List Block) : List Block := blocks.filter (·.address = a)

@[simp] theorem ofAccount_nil (a : Address) : ofAccount a [] = [] := rfl

theorem ofAccount_cons_self {a : Address} {b : Block} (h : b.address = a) (blocks : List Block) :
    ofAccount a (b :: blocks) = b :: ofAccount a blocks := List.filter_cons_of_pos (by simp [h])

theorem ofAccount_cons_of_ne {a : Address} {b : Block} (h : b.address ≠ a) (blocks : List Block) :
    ofAccount a (b :: blocks) = ofAccount a blocks := List.filter_cons_of_neg (by simp [h])

theorem mem_ofAccount {a : Address} {b : Block} {blocks : List Block} :
    b ∈ ofAccount a blocks ↔ b ∈ blocks ∧ b.address = a := by simp [ofAccount]

theorem ofAccount_eq_nil_iff {a : Address} {blocks : List Block} :
    ofAccount a blocks = [] ↔ ∀ b ∈ blocks, b.address ≠ a := by simp [ofAccount]

theorem ofAccount_append (a : Address) (xs ys : List Block) :
    ofAccount a (xs ++ ys) = ofAccount a xs ++ ofAccount a ys := List.filter_append ..

theorem length_ofAccount (a : Address) (blocks : List Block) :
    (ofAccount a blocks).length = (blocks.map (·.address)).count a := by
  rw [ofAccount, ← List.countP_eq_length_filter, List.count, List.countP_map]
  rfl

/-! ## Lists told apart by their accounts -/

/-- Lists with the same places agree wherever they agree within each account. -/
theorem map_eq_of_ofAccount {β : Type} (f : Block → β) :
    ∀ {xs ys : List Block}, xs.map (·.address) = ys.map (·.address) →
      (∀ a, (ofAccount a xs).map f = (ofAccount a ys).map f) → xs.map f = ys.map f
  | [], [], _, _ => rfl
  | x :: xs, y :: ys, hplaces, h => by
      simp only [List.map_cons, List.cons.injEq] at hplaces
      obtain ⟨hhead, htail⟩ := hplaces
      have hself := h x.address
      rw [ofAccount_cons_self rfl, ofAccount_cons_self hhead.symm, List.map_cons, List.map_cons,
        List.cons.injEq] at hself
      rw [List.map_cons, List.map_cons, hself.1]
      congr 1
      refine map_eq_of_ofAccount f htail fun a => ?_
      by_cases ha : x.address = a
      · exact ha ▸ hself.2
      · have hother := h a
        rwa [ofAccount_cons_of_ne ha, ofAccount_cons_of_ne (hhead ▸ ha)] at hother

theorem perm_of_ofAccount {xs ys : List Block}
    (h : ∀ a, (ofAccount a xs).Perm (ofAccount a ys)) : xs.Perm ys := by
  refine List.perm_iff_count.mpr fun b => ?_
  have hb : decide (b.address = b.address) = true := by simp
  have hx : (ofAccount b.address xs).count b = xs.count b := List.count_filter hb
  have hy : (ofAccount b.address ys).count b = ys.count b := List.count_filter hb
  rw [← hx, ← hy]
  exact (h b.address).count_eq b

/-- What relates the blocks of each account relates blocks of one account. -/
theorem pairwise_of_ofAccount {R : Block → Block → Prop} :
    ∀ {blocks : List Block}, (∀ a, (ofAccount a blocks).Pairwise R) →
      blocks.Pairwise fun b c => b.address = c.address → R b c
  | [], _ => .nil
  | b :: blocks, h => by
      refine List.pairwise_cons.mpr ⟨fun c hc heq => ?_, pairwise_of_ofAccount fun a => ?_⟩
      -- the head is the first block of its own account
      · have hself := h b.address
        rw [ofAccount_cons_self rfl] at hself
        exact (List.pairwise_cons.mp hself).1 c (mem_ofAccount.mpr ⟨hc, heq.symm⟩)
      · refine (h a).sublist (List.Sublist.filter _ ?_)
        exact List.sublist_cons_self b blocks

/-! ## Filling places -/

/-- The block that fills a place is the first one of the account. -/
theorem ofAccount_of_find? {place : Address} {b : Block} {blocks : List Block}
    (h : blocks.find? (·.address = place) = some b) (a : Address) :
    b.address = place ∧
      ofAccount a blocks =
        if place = a then b :: ofAccount a (blocks.eraseP (·.address = place))
        else ofAccount a (blocks.eraseP (·.address = place)) := by
  obtain ⟨hb, front, back, heq, hfront⟩ := List.find?_eq_some_iff_append.mp h
  have hb : b.address = place := by simpa using hb
  have hfront' : ∀ c ∈ front, c.address ≠ place := fun c hc => by simpa using hfront c hc
  have herase : blocks.eraseP (·.address = place) = front ++ back := by
    rw [heq, List.eraseP_append_right _ fun c hc => by simpa using hfront' c hc,
      List.eraseP_cons_of_pos (by simp [hb])]
  refine ⟨hb, ?_⟩
  rw [herase, heq, ofAccount_append, ofAccount_append]
  split
  · rename_i ha
    have hnil : ofAccount a front = [] :=
      ofAccount_eq_nil_iff.mpr fun c hc => ha ▸ hfront' c hc
    rw [ofAccount_cons_self (hb.trans ha), hnil, List.nil_append, List.nil_append]
  · rename_i ha
    rw [ofAccount_cons_of_ne (hb ▸ ha)]

/-- Each account gets its blocks in order, one for each of its places. -/
theorem ofAccount_fill (a : Address) (places : List Address) (blocks : List Block) :
    ofAccount a (fill places blocks) = (ofAccount a blocks).take (places.count a) := by
  induction places generalizing blocks with
  | nil => simp [fill]
  | cons place places ih =>
      rw [fill]
      cases hfind : blocks.find? (·.address = place) with
      | some b =>
          obtain ⟨hb, hself⟩ := ofAccount_of_find? hfind a
          by_cases ha : place = a
          · rw [if_pos ha] at hself
            rw [ofAccount_cons_self (hb.trans ha), ih, hself, ha, List.count_cons_self,
              List.take_succ_cons]
          · rw [if_neg ha] at hself
            rw [ofAccount_cons_of_ne (hb ▸ ha), ih, hself, List.count_cons_of_ne ha]
      | none =>
          have hnone : ∀ c ∈ blocks, c.address ≠ place := by
            simpa using List.find?_eq_none.mp hfind
          show ofAccount a (fill places blocks) = _
          rw [ih]
          by_cases ha : place = a
          · rw [ofAccount_eq_nil_iff.mpr (ha ▸ hnone), List.take_nil, List.take_nil]
          · rw [List.count_cons_of_ne ha]

/-- Places for which there are blocks enough are filled by blocks of their
accounts. -/
theorem map_address_fill {places : List Address} {blocks : List Block}
    (h : ∀ a, places.count a ≤ (ofAccount a blocks).length) :
    (fill places blocks).map (·.address) = places := by
  induction places generalizing blocks with
  | nil => rfl
  | cons place places ih =>
      rw [fill]
      cases hfind : blocks.find? (·.address = place) with
      | some b =>
          have hrest : ∀ a, places.count a ≤
              (ofAccount a (blocks.eraseP (·.address = place))).length := by
            intro a
            have ha := h a
            rw [(ofAccount_of_find? hfind a).2] at ha
            by_cases heq : place = a
            · rw [if_pos heq, heq, List.count_cons_self, List.length_cons] at ha
              rw [heq]
              omega
            · rw [if_neg heq, List.count_cons_of_ne heq] at ha
              exact ha
          show b.address :: (fill places _).map (·.address) = _
          rw [(ofAccount_of_find? hfind place).1, ih hrest]
      | none =>
          have hnil : ofAccount place blocks = [] :=
            ofAccount_eq_nil_iff.mpr (by simpa using List.find?_eq_none.mp hfind)
          have hplace := h place
          rw [hnil, List.count_cons_self, List.length_nil] at hplace
          omega

/-! ## Restoring the heights -/

theorem byHeight_perm (blocks : List Block) : (byHeight blocks).Perm blocks :=
  List.mergeSort_perm ..

theorem byHeight_ascends (blocks : List Block) :
    (byHeight blocks).Pairwise fun b c => b.height ≤ c.height := by
  have h : (byHeight blocks).Pairwise fun b c => decide (b.height ≤ c.height) = true := by
    refine List.pairwise_mergeSort (fun a b c hab hbc => ?_) (fun a b => ?_) blocks
    · simp only [decide_eq_true_eq] at hab hbc ⊢
      exact UInt64.le_trans hab hbc
    · simpa using UInt64.le_total a.height b.height
  exact h.imp of_decide_eq_true

/-- Every place keeps its account. -/
theorem map_address_restoreHeights (blocks : List Block) :
    (restoreHeights blocks).map (·.address) = blocks.map (·.address) := by
  refine map_address_fill fun a => ?_
  rw [length_ofAccount]
  exact Nat.le_of_eq (((byHeight_perm blocks).map _).count_eq a).symm

/-- The blocks of an account are those that it has, in order of height. -/
theorem ofAccount_restoreHeights (a : Address) (blocks : List Block) :
    ofAccount a (restoreHeights blocks) = ofAccount a (byHeight blocks) := by
  refine (ofAccount_fill a _ _).trans (List.take_of_length_le ?_)
  rw [length_ofAccount]
  exact Nat.le_of_eq (((byHeight_perm blocks).map _).count_eq a)

theorem ofAccount_restoreHeights_perm (a : Address) (blocks : List Block) :
    (ofAccount a (restoreHeights blocks)).Perm (ofAccount a blocks) := by
  rw [ofAccount_restoreHeights]
  exact (byHeight_perm blocks).filter _

theorem restoreHeights_perm (blocks : List Block) : (restoreHeights blocks).Perm blocks :=
  perm_of_ofAccount fun a => ofAccount_restoreHeights_perm a blocks

/-- The blocks of each account ascend. -/
theorem restoreHeights_ascends (blocks : List Block) :
    (restoreHeights blocks).Pairwise fun b c => b.address = c.address → b.height ≤ c.height := by
  refine pairwise_of_ofAccount fun a => ?_
  rw [ofAccount_restoreHeights]
  exact (byHeight_ascends blocks).sublist List.filter_sublist

end MomentumChain.Selection
