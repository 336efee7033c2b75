import MomentumChain.Proofs.Production.Round

/-!
# Arithmetic faults of a round

A word that does not fit ends a round with a fault.  Of all that a dynamic round
computes, one product only is written without room: the price of the base plasma of
a plain block, against which user blocks are measured.  So a round faults exactly if
it is `Overpriced`: the momentum before it records a fusion price that is too high,
and the first user block stays within the budget, so that its payment is looked at.

The recorded price can be that high, since prices are bounded by the word only.  The
bounds on the variables of the market do not help (`dear_faults`).
-/

namespace MomentumChain

open Selection

namespace Plasma.Market

variable {market : Market} {block : Block} {fault : ArithmeticFault}

theorem eq_overflow_of_paysEnough (h : market.paysEnough block = .error fault) :
    fault = .overflow := by
  cases hcontract : block.isContract with
  | true =>
      rw [paysEnough_of_contract hcontract] at h
      cases h
  | false =>
      cases Decidable.em market.PriceFits with
      | inl hfits =>
          rw [paysEnough_of_priceFits hfits hcontract] at h
          cases h
      | inr hfits =>
          rw [paysEnough_of_not_priceFits hfits hcontract] at h
          cases h
          rfl

/-- Minimal prices fit, so only a recorded price can be too high. -/
theorem priceFits_after_iff {previous : Momentum} {vars : Variables} :
    (after previous vars).PriceFits ↔ (Momentum.dynamicVersion ≤ previous.version →
      blockBase.toNat * previous.nextFusionPrice.toNat < UInt64.size) := by
  have hmin : blockBase.toNat * minPrice.toNat < UInt64.size := by decide
  by_cases hversion : Momentum.dynamicVersion ≤ previous.version
  · have hprice : (after previous vars).fusionPrice = max previous.nextFusionPrice minPrice := by
      rw [after, if_pos hversion]
      rfl
    rw [PriceFits, hprice, toNat_max]
    cases Nat.le_total previous.nextFusionPrice.toNat minPrice.toNat with
    | inl hle =>
        rw [Nat.max_eq_right hle]
        have hsmall := Nat.mul_le_mul_left blockBase.toNat hle
        constructor
        · intro _ _
          exact Nat.lt_of_le_of_lt hsmall hmin
        · intro _
          exact hmin
    | inr hle =>
        rw [Nat.max_eq_left hle]
        simp [hversion]
  · have hprice : (after previous vars).fusionPrice = minPrice := by
      rw [after, if_neg hversion]
      rfl
    rw [PriceFits, hprice]
    simp [hversion, hmin]

end Plasma.Market

/-! ## Faults of a selection -/

namespace Selection

variable {market : Plasma.Market} {fault : ArithmeticFault}

theorem eq_overflow_of_acceptUsers {used : UInt64} {blocks : List Block}
    (h : acceptUsers market used blocks = .error fault) : fault = .overflow := by
  induction blocks generalizing used with
  | nil => cases h
  | cons block rest ih =>
      cases Decidable.em (market.budget < Word.satAdd used block.basePlasma) with
      | inl hlt =>
          rw [acceptUsers_of_budget_lt hlt] at h
          cases h
      | inr hle =>
          have hle := UInt64.not_lt.mp hle
          cases hpays : market.paysEnough block with
          | error cause =>
              rw [acceptUsers_of_fault hle hpays] at h
              cases h
              exact Plasma.Market.eq_overflow_of_paysEnough hpays
          | ok answer =>
              cases answer with
              | false =>
                  rw [acceptUsers_of_underpays hle hpays] at h
                  cases h
              | true =>
                  rw [acceptUsers_of_pays hle hpays] at h
                  cases hlater : acceptUsers market (Word.satAdd used block.basePlasma) rest with
                  | error cause =>
                      rw [hlater] at h
                      cases h
                      exact ih hlater
                  | ok later =>
                      rw [hlater] at h
                      cases h

/-- A selection faults exactly if there is no content. -/
theorem Rules.content_eq_error_iff {rules : Rules} {pool : List Block} :
    rules.content pool = .error fault ↔ fault = .overflow ∧ ¬ rules.Priceable pool := by
  rw [← content_isOk_iff]
  cases hcontent : rules.content pool with
  | ok blocks => simp
  | error cause =>
      have hcause : cause = .overflow := by
        rw [content_eq] at hcontent
        cases hlater : acceptUsers rules.market 0 (users (rules.order pool)) with
        | error cause =>
            rw [hlater] at hcontent
            cases hcontent
            exact eq_overflow_of_acceptUsers hlater
        | ok later =>
            rw [hlater] at hcontent
            cases hcontent
      simp [hcause, eq_comm]

end Selection

/-! ## Faults of a round -/

namespace Production

/-- The price of a plain block that follows from the momentum before does not fit, and
the first user block is measured against it. -/
def Overpriced (previous : Momentum) (vars : Plasma.Variables) (priority : Address.Set)
    (pool : List Block) : Prop :=
  (Momentum.dynamicVersion ≤ previous.version ∧
      UInt64.size ≤ Plasma.blockBase.toNat * previous.nextFusionPrice.toNat) ∧
    ∃ first ∈ (users (Rules.order ⟨.after previous vars, priority⟩ pool)).head?,
      first.basePlasma ≤ vars.budget

theorem overpriced_iff {previous : Momentum} {vars : Plasma.Variables} {priority : Address.Set}
    {pool : List Block} : Overpriced previous vars priority pool ↔
      ¬ Rules.Priceable ⟨.after previous vars, priority⟩ pool := by
  have hbudget : (Plasma.Market.after previous vars).budget = vars.budget := by
    unfold Plasma.Market.after
    split <;> rfl
  rw [Rules.Priceable, Plasma.Market.priceFits_after_iff, hbudget]
  simp [Overpriced]

/-- A round faults exactly if it gets to its selection and that faults. -/
theorem produce_eq_fault_iff {producer : Producer} {slot : Election.Slot} {elapsed : UInt64}
    {s : State} {fault : ArithmeticFault} :
    ((producer.produce slot elapsed).run s).1 = .error (.fault fault) ↔
      s.chain.Ready ∧ s.chain.isDynamic = true ∧
        (s.chain.rules producer.config.priority).content s.chain.pool.blocks = .error fault := by
  have hends := produce_ends producer slot elapsed s
  generalize (producer.produce slot elapsed).run s = ending at hends
  constructor
  · intro h
    cases hends with
    | fault ready dynamic content =>
        cases h
        exact ⟨ready, dynamic, content⟩
    | noStore | noHeight | noPool | violation | noSigner | signed => cases h
  · rintro ⟨ready, hdynamic, hcontent⟩
    cases hends with
    | noStore store => simp [ready.store] at store
    | noHeight _ height => exact absurd height ready.height
    | noPool _ _ pool => simp [ready.pool] at pool
    | fault _ _ content =>
        rw [hcontent] at content
        cases content
        rfl
    | violation _ _ content => simp [hcontent] at content
    | noSigner _ planned =>
        obtain ⟨blocks, content, _⟩ := planned.exists_content hdynamic
        simp [hcontent] at content
    | signed _ planned =>
        obtain ⟨blocks, content, _⟩ := planned.exists_content hdynamic
        simp [hcontent] at content

/-- A selection faults exactly if it is overpriced, what is selected has a usage and next
prices, and a round faults exactly if its own selection does. -/
theorem round_faults_iff (previous : Momentum) (vars : Plasma.Variables)
    (priority : Address.Set) (pool : List Block) :
    (∀ fault, Rules.content ⟨.after previous vars, priority⟩ pool = .error fault ↔
        fault = .overflow ∧ Overpriced previous vars priority pool) ∧
      (∀ blocks, ∃ usage fusion work,
        (Plasma.Market.after previous vars).totalUsage blocks = .ok usage ∧
          (Plasma.Market.after previous vars).nextFusionPrice usage.fusion = .ok fusion ∧
          (Plasma.Market.after previous vars).nextWorkPrice usage.work = .ok work) ∧
      ∀ (producer : Producer) (slot : Election.Slot) (elapsed : UInt64) (s : State) fault,
        ((producer.produce slot elapsed).run s).1 = .error (.fault fault) ↔
          fault = .overflow ∧ s.chain.Ready ∧ s.chain.isDynamic = true ∧
            Overpriced s.chain.store.frontier s.chain.store.vars producer.config.priority
              s.chain.pool.blocks := by
  refine ⟨?_, ?_, ?_⟩
  · intro fault
    rw [Rules.content_eq_error_iff, overpriced_iff]
  · intro blocks
    exact (Plasma.Market.after previous vars).exists_nextPrices blocks
  · intro producer slot elapsed s fault
    rw [produce_eq_fault_iff, overpriced_iff, Rules.content_eq_error_iff]
    simp only [Chain.rules, Chain.market]
    constructor
    · rintro ⟨ready, hdynamic, hfault, hprice⟩
      exact ⟨hfault, ready, hdynamic, hprice⟩
    · rintro ⟨hfault, ready, hdynamic, hprice⟩
      exact ⟨ready, hdynamic, hfault, hprice⟩

/-- A momentum that records the lowest fusion price that is too high. -/
def dear : Momentum :=
  { version := Momentum.dynamicVersion, height := 1, nextFusionPrice := 878416384462360
    nextWorkPrice := 1000 }

/-- The first variables are within their bounds, and one plain block is enough. -/
theorem dear_faults : Plasma.Variables.initial.check = .ok () ∧
    Rules.content ⟨.after dear .initial, .empty⟩ [userBlock 1 1 0 21000] = .error .overflow := by
  constructor
  · rfl
  · cbv

end Production

end MomentumChain
