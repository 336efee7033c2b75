import MomentumChain.Proofs.Genesis

/-!
# Network variants

A genesis whose first word is the mark is one of a network variant.  Five conditions are looked
at in turn, and a refusal reports the first one that is violated (`protocol_eq_error_iff`).  If
all are met then there is a network (`exists_protocol_iff`), and its parameters follow from the
block time and the first two tokens (`isVariant_of_protocol`, `protocol_congr`).

The parameters are words of 64 bits, and lists are looked up by position.  `checkedProtocol` is
the same computation with nothing taken for granted of either.  Each step of it has a result: a
block time is not zero where it divides, an hour has at most 3600 momentums, and nothing is looked
up before it was counted (`checkedProtocol_eq`).
-/

namespace MomentumChain

/-! ## The parameters of a variant, with every step checked -/

/-- Exact quotient of two 64-bit words. -/
def Word.div64 (a b : UInt64) : Checked UInt64 :=
  if b = 0 then .error .zeroDivisor else .ok (a / b)

namespace Protocol

/-- The parameters with a block time, where a quotient or a product may have no result. -/
def checkedBlockTime (protocol : Protocol) (seconds : UInt64) : Checked Protocol := do
  let perHour ← Word.div64 3600 seconds
  let perEpoch ← Word.mul64 perHour 24
  let interval ← Word.div64 (← Word.mul64 perHour 5) 6
  let lock ← Word.mul64 perHour 10
  pure { protocol with
    consensus := { protocol.consensus with blockTime := seconds }
    momentumsPerHour := perHour
    momentumsPerEpoch := perEpoch
    updateInterval := interval
    fusionLock := lock }

/-- An hour has no more momentums than seconds. -/
theorem perHour_mul_lt (seconds : UInt64) {n : UInt64} (hn : n.toNat ≤ 24) :
    (3600 / seconds).toNat * n.toNat < UInt64.size := by
  have hhour : (3600 / seconds).toNat ≤ 3600 := by
    rw [UInt64.toNat_div]
    exact Nat.div_le_self _ _
  calc (3600 / seconds).toNat * n.toNat ≤ 3600 * 24 := Nat.mul_le_mul hhour hn
    _ < UInt64.size := by decide

theorem toNat_perHour_mul (seconds : UInt64) {n : UInt64} (hn : n.toNat ≤ 24) :
    (3600 / seconds * n).toNat = n.toNat * (3600 / seconds).toNat := by
  rw [UInt64.toNat_mul, Nat.mod_eq_of_lt (perHour_mul_lt seconds hn), Nat.mul_comm]

theorem checkedBlockTime_eq (protocol : Protocol) {seconds : UInt64} (h : seconds ≠ 0) :
    protocol.checkedBlockTime seconds = .ok (protocol.withBlockTime seconds) := by
  have hhour : Word.div64 3600 seconds = .ok (3600 / seconds) := if_neg h
  have hproduct {n : UInt64} (hn : n.toNat ≤ 24) :
      Word.mul64 (3600 / seconds) n = .ok (3600 / seconds * n) :=
    Word.mul64_of_lt (perHour_mul_lt seconds hn)
  simp only [checkedBlockTime, hhour, hproduct (show UInt64.toNat 24 ≤ 24 by decide),
    hproduct (show UInt64.toNat 5 ≤ 24 by decide), hproduct (show UInt64.toNat 10 ≤ 24 by decide),
    bind, Except.bind]
  rfl

/-- The parameters of the main network before its block time is set. -/
def untimed : Protocol :=
  { mainnet with
    momentumsPerHour := 0, momentumsPerEpoch := 0, updateInterval := 0, fusionLock := 0 }

end Protocol

namespace Genesis

/-- The parameters of the network of a genesis, with every step checked: there is no result if a
list has nothing at a position or if a quotient or a product does not exist. -/
def checkedProtocol (genesis : Genesis) : ExceptT Error Option Protocol := do
  let main ← (Protocol.untimed.checkedBlockTime 10).toOption
  let ws := words genesis.extraData
  if ws.head? ≠ some mark then return main
  if ws.length ≠ 4 then throw (.wrongWordCount ws.length)
  if genesis.tokens.length < 2 then throw (.missingTokens genesis.tokens.length)
  let algorithmWord ← (ws[2]? : Option String)
  let algorithm ←
    match ElectionAlgorithm.ofWord? algorithmWord with
    | some algorithm => pure algorithm
    | none => throw (.unknownAlgorithm algorithmWord)
  let timeWord ← (ws[3]? : Option String)
  let seconds ←
    match readNumber? timeWord with
    | some seconds => pure seconds
    | none => throw (.invalidBlockTime timeWord)
  if seconds = 0 ∨ maxBlockTime < seconds then throw (.blockTimeOutOfRange seconds)
  let znn ← (genesis.tokens[0]? : Option Token)
  let qsr ← (genesis.tokens[1]? : Option Token)
  let variant : Protocol :=
    { main with
      znn := znn
      qsr := qsr
      consensus := { main.consensus with countingToken := znn, algorithm := algorithm } }
  let variant ← (variant.checkedBlockTime seconds).toOption
  let _tag ← (ws[1]? : Option String)
  pure variant

theorem readNumber?_eq_none_iff {word : String} :
    readNumber? word = none ↔ ∀ n : UInt64, ¬ Decimal word n.toNat := by
  simp only [Option.eq_none_iff_forall_ne_some, ne_eq, readNumber?_eq_some_iff]

/-- No step is without a result, and the answer is the one without the checks. -/
theorem checkedProtocol_eq (genesis : Genesis) :
    genesis.checkedProtocol.run = some genesis.protocol := by
  have hmain : (Protocol.untimed.checkedBlockTime 10).toOption = some Protocol.mainnet := by
    rw [Protocol.checkedBlockTime_eq _ (by decide)]
    rfl
  have huniform : ElectionAlgorithm.ofWord? "UNIFORM" = some .uniform := rfl
  have hanswers := protocol_answers genesis
  generalize genesis.protocol = answer at hanswers
  rw [checkedProtocol, hmain]
  cases hanswers with
  | unmarked text first_ne => simp [text, first_ne]
  | wrongWordCount text count => simp [text, count]
  | missingTokens text tokens => simp [text, tokens]
  | @unknownAlgorithm tag algorithm time text tokens algorithm_ne =>
      have hunknown : ElectionAlgorithm.ofWord? algorithm = none := if_neg algorithm_ne
      simp [text, Nat.not_lt.mpr tokens, hunknown]
  | invalidBlockTime text tokens number =>
      have hnone := readNumber?_eq_none_iff.mpr number
      simp [text, Nat.not_lt.mpr tokens, huniform, hnone]
  | blockTimeOutOfRange text tokens number range =>
      have hsome := readNumber?_eq_some_iff.mpr number
      simp [text, Nat.not_lt.mpr tokens, huniform, hsome, outOfRange_iff.mpr range]
  | @variant tag time seconds znn qsr more text tokens number range =>
      have hsome := readNumber?_eq_some_iff.mpr number
      have hwithin : ¬ (seconds = 0 ∨ maxBlockTime < seconds) := by
        rw [outOfRange_iff]
        omega
      have hne : seconds ≠ 0 := fun h => hwithin (.inl h)
      have hmainnet : Protocol.mainnet.consensus.algorithm = .uniform := rfl
      simp [text, tokens, huniform, hsome, hwithin, Protocol.checkedBlockTime_eq _ hne, variant,
        hmainnet, Except.toOption, Except.map]

/-! ## Conditions -/

/-- What a genesis with the mark must meet, in the order in which it is looked at. -/
inductive Condition where
  | wordCount
  | tokens
  | algorithm
  | number
  | range
deriving DecidableEq

namespace Condition

/-- How many conditions are looked at before. -/
def place : Condition → Nat
  | wordCount => 0
  | tokens => 1
  | algorithm => 2
  | number => 3
  | range => 4

theorem place_inj {c d : Condition} (h : c.place = d.place) : c = d := by
  cases c <;> cases d <;> simp [place] at h ⊢

/-- The words of a text and the tokens beside it meet a condition. -/
def Holds (ws : List String) (tokens : List Token) : Condition → Prop
  | wordCount => ws.length = 4
  | .tokens => 2 ≤ tokens.length
  | algorithm => ws[2]? = some "UNIFORM"
  | number => ∃ time ∈ ws[3]?, ∃ n < UInt64.size, Decimal time n
  | range => ∃ time ∈ ws[3]?, ∃ n, Decimal time n ∧ 1 ≤ n ∧ n ≤ 3600

/-- The first condition that is violated. -/
structure FirstViolated (ws : List String) (tokens : List Token) (c : Condition) : Prop where
  violated : ¬ c.Holds ws tokens
  before : ∀ d : Condition, d.place < c.place → d.Holds ws tokens

theorem FirstViolated.unique {ws : List String} {tokens : List Token} {c d : Condition}
    (hc : FirstViolated ws tokens c) (hd : FirstViolated ws tokens d) : c = d := by
  refine place_inj (Nat.le_antisymm ?_ ?_)
  · exact Nat.not_lt.mp fun hlt => hd.violated (hc.before d hlt)
  · exact Nat.not_lt.mp fun hlt => hc.violated (hd.before c hlt)

end Condition

/-- An error reports that a condition is violated, and by what. -/
inductive Reports (ws : List String) (tokens : List Token) : Error → Condition → Prop where
  | wordCount : Reports ws tokens (.wrongWordCount ws.length) .wordCount
  | tokens : Reports ws tokens (.missingTokens tokens.length) .tokens
  | algorithm {word : String} (third : ws[2]? = some word) :
      Reports ws tokens (.unknownAlgorithm word) .algorithm
  | number {time : String} (fourth : ws[3]? = some time) :
      Reports ws tokens (.invalidBlockTime time) .number
  | range {time : String} {seconds : UInt64} (fourth : ws[3]? = some time)
      (number : Decimal time seconds.toNat) :
      Reports ws tokens (.blockTimeOutOfRange seconds) .range

theorem Decimal.unique {word : String} {n m : Nat} (hn : Decimal word n) (hm : Decimal word m) :
    n = m := by
  obtain ⟨ds, _, hds, hword, rfl⟩ := hn
  obtain ⟨es, _, hes, hword', rfl⟩ := hm
  -- a sign is no digit, so the words have signs both or neither
  have hplus : ∀ {cs : List Char}, (∀ c ∈ cs, '0' ≤ c ∧ c ≤ '9') → '+' ∉ cs :=
    fun h hmem => absurd (h '+' hmem) (by decide)
  have heq : ds = es := by
    rcases hword with hword | hword <;> rcases hword' with hword' | hword' <;>
      rw [hword] at hword'
    · exact hword'
    · exact absurd (hword' ▸ List.mem_cons_self) (hplus hds)
    · exact absurd (hword' ▸ List.mem_cons_self) (hplus hes)
    · exact List.tail_eq_of_cons_eq hword'
  rw [heq]

theorem Reports.unique {ws : List String} {tokens : List Token} {error other : Error}
    {c : Condition} (h : Reports ws tokens error c) (h' : Reports ws tokens other c) :
    error = other := by
  cases h with
  | wordCount | tokens =>
      cases h'
      rfl
  | algorithm third =>
      cases h' with
      | algorithm third' => rw [Option.some.inj (third.symm.trans third')]
  | number fourth =>
      cases h' with
      | number fourth' => rw [Option.some.inj (fourth.symm.trans fourth')]
  | range fourth number =>
      cases h' with
      | range fourth' number' =>
          cases fourth.symm.trans fourth'
          rw [UInt64.toNat_inj.mp (number.unique number')]

/-- The network of a genesis with the mark meets all conditions. -/
theorem holds_of_protocol {genesis : Genesis} {protocol : Protocol}
    (hmark : (words genesis.extraData).head? = some mark) (h : genesis.protocol = .ok protocol)
    (c : Condition) : c.Holds (words genesis.extraData) genesis.tokens := by
  have hanswers := protocol_answers genesis
  rw [h] at hanswers
  cases hanswers with
  | unmarked text first_ne =>
      rw [text] at hmark
      exact absurd (Option.some.inj hmark) first_ne
  | @variant tag time seconds znn qsr more text tokens number range =>
      rw [text]
      cases c with
      | wordCount | algorithm => rfl
      | tokens => simp [Condition.Holds, tokens]
      | number => exact ⟨time, rfl, seconds.toNat, seconds.toNat_lt, number⟩
      | range => exact ⟨time, rfl, seconds.toNat, number, range⟩

/-- A refusal reports the first condition that is violated. -/
theorem reports_of_protocol {genesis : Genesis} {error : Error}
    (h : genesis.protocol = .error error) :
    ∃ c, Condition.FirstViolated (words genesis.extraData) genesis.tokens c ∧
      Reports (words genesis.extraData) genesis.tokens error c := by
  have hanswers := protocol_answers genesis
  rw [h] at hanswers
  cases hanswers with
  | @wrongWordCount rest text count =>
      rw [text]
      refine ⟨.wordCount, ⟨fun h => count (Nat.succ.inj h), fun d hlt => ?_⟩, .wordCount⟩
      exact absurd hlt (Nat.not_lt_zero _)
  | @missingTokens tag algorithm time text tokens =>
      rw [text]
      refine ⟨.tokens, ⟨Nat.not_le.mpr tokens, fun d hlt => ?_⟩, .tokens⟩
      cases d with
      | wordCount => rfl
      | tokens | algorithm | number | range => exact absurd hlt (by decide)
  | @unknownAlgorithm tag algorithm time text tokens algorithm_ne =>
      rw [text]
      refine ⟨.algorithm, ⟨fun h => algorithm_ne (Option.some.inj h), fun d hlt => ?_⟩,
        .algorithm rfl⟩
      cases d with
      | wordCount => rfl
      | tokens => exact tokens
      | algorithm | number | range => exact absurd hlt (by decide)
  | @invalidBlockTime tag time text tokens number =>
      rw [text]
      refine ⟨.number, ⟨?_, fun d hlt => ?_⟩, .number rfl⟩
      · rintro ⟨_, hfourth, n, hn, hdecimal⟩
        cases hfourth
        refine number (UInt64.ofNat n) ?_
        rwa [UInt64.toNat_ofNat_of_lt' hn]
      · cases d with
        | wordCount | algorithm => rfl
        | tokens => exact tokens
        | number | range => exact absurd hlt (by decide)
  | @blockTimeOutOfRange tag time seconds text tokens number range =>
      rw [text]
      refine ⟨.range, ⟨?_, fun d hlt => ?_⟩, .range rfl number⟩
      · rintro ⟨_, hfourth, n, hdecimal, hbounds⟩
        cases hfourth
        have := number.unique hdecimal
        omega
      · cases d with
        | wordCount | algorithm => rfl
        | tokens => exact tokens
        | number => exact ⟨time, rfl, seconds.toNat, seconds.toNat_lt, number⟩
        | range => exact absurd hlt (by decide)

theorem exists_protocol_iff {genesis : Genesis}
    (hmark : (words genesis.extraData).head? = some mark) :
    (∃ protocol, genesis.protocol = .ok protocol) ↔
      ∀ c : Condition, c.Holds (words genesis.extraData) genesis.tokens := by
  constructor
  · rintro ⟨protocol, hprotocol⟩
    exact holds_of_protocol hmark hprotocol
  · intro hholds
    cases hprotocol : genesis.protocol with
    | ok protocol => exact ⟨protocol, rfl⟩
    | error error =>
        obtain ⟨c, hfirst, _⟩ := reports_of_protocol hprotocol
        exact absurd (hholds c) hfirst.violated

theorem protocol_eq_error_iff {genesis : Genesis} {error : Error}
    (hmark : (words genesis.extraData).head? = some mark) :
    genesis.protocol = .error error ↔
      ∃ c, Condition.FirstViolated (words genesis.extraData) genesis.tokens c ∧
        Reports (words genesis.extraData) genesis.tokens error c := by
  refine ⟨reports_of_protocol, ?_⟩
  rintro ⟨c, hfirst, hreports⟩
  cases hprotocol : genesis.protocol with
  | ok protocol => exact absurd (holds_of_protocol hmark hprotocol c) hfirst.violated
  | error other =>
      obtain ⟨d, hfirst', hreports'⟩ := reports_of_protocol hprotocol
      cases hfirst.unique hfirst'
      rw [hreports.unique hreports']

/-! ## Parameters -/

/-- The parameters of a network variant with the given words and tokens. -/
structure IsVariant (ws : List String) (tokens : List Token) (protocol : Protocol) : Prop where
  tokens : ∃ more, tokens = protocol.znn :: protocol.qsr :: more
  countingToken : protocol.consensus.countingToken = protocol.znn
  blockTime : ∃ time ∈ ws[3]?, Decimal time protocol.consensus.blockTime.toNat
  perHour : protocol.momentumsPerHour.toNat = 3600 / protocol.consensus.blockTime.toNat
  perHour_pos : 1 ≤ protocol.momentumsPerHour.toNat
  perEpoch : protocol.momentumsPerEpoch.toNat = 24 * protocol.momentumsPerHour.toNat
  fusionLock : protocol.fusionLock.toNat = 10 * protocol.momentumsPerHour.toNat
  updateInterval : protocol.updateInterval.toNat = 5 * protocol.momentumsPerHour.toNat / 6
  /-- Everything else is as in the main network. -/
  main : { protocol with
      consensus := { protocol.consensus with
        blockTime := Protocol.mainnet.consensus.blockTime
        countingToken := Protocol.mainnet.consensus.countingToken }
      momentumsPerHour := Protocol.mainnet.momentumsPerHour
      momentumsPerEpoch := Protocol.mainnet.momentumsPerEpoch
      updateInterval := Protocol.mainnet.updateInterval
      fusionLock := Protocol.mainnet.fusionLock
      znn := Protocol.mainnet.znn
      qsr := Protocol.mainnet.qsr } = Protocol.mainnet

theorem isVariant_of_protocol {genesis : Genesis} {protocol : Protocol}
    (hmark : (words genesis.extraData).head? = some mark) (h : genesis.protocol = .ok protocol) :
    IsVariant (words genesis.extraData) genesis.tokens protocol := by
  have hanswers := protocol_answers genesis
  rw [h] at hanswers
  cases hanswers with
  | unmarked text first_ne =>
      rw [text] at hmark
      exact absurd (Option.some.inj hmark) first_ne
  | @variant tag time seconds znn qsr more text tokens number range =>
      have hhour : (3600 / seconds).toNat = 3600 / seconds.toNat := UInt64.toNat_div _ _
      rw [text]
      exact {
        tokens := ⟨more, tokens⟩
        countingToken := rfl
        blockTime := ⟨time, rfl, number⟩
        perHour := hhour
        perHour_pos := by
          show 1 ≤ (3600 / seconds).toNat
          rw [hhour]
          exact (Nat.le_div_iff_mul_le range.1).mpr (by omega)
        perEpoch := Protocol.toNat_perHour_mul seconds (by decide)
        fusionLock := Protocol.toNat_perHour_mul seconds (by decide)
        updateInterval := by
          show (3600 / seconds * 5 / 6).toNat = _
          rw [UInt64.toNat_div, Protocol.toNat_perHour_mul seconds (by decide)]
          rfl
        main := rfl }

/-- The tag and the tokens after the first two make no difference. -/
theorem protocol_congr {genesis other : Genesis} {ws : List String} {tag : String}
    (hwords : words genesis.extraData = ws) (hwords' : words other.extraData = ws.set 1 tag)
    (htokens : other.tokens.take 2 = genesis.tokens.take 2) :
    other.protocol = genesis.protocol := by
  rw [protocol, protocol, hwords, hwords']
  obtain _ | ⟨first, _ | ⟨_, _ | ⟨algorithm, _ | ⟨time, _ | _⟩⟩⟩⟩ := ws
  -- tokens are looked at among four words only
  case cons.cons.cons.cons.nil =>
    generalize genesis.tokens = tokens, other.tokens = others at htokens
    obtain _ | ⟨znn, _ | ⟨qsr, more⟩⟩ := tokens <;>
      obtain _ | ⟨znn', _ | ⟨qsr', more'⟩⟩ := others <;>
      cases htokens <;> rfl
  all_goals rfl

/-- The text is made up of words without spaces, with a single space between each two of them. -/
def MadeOf (text : String) (ws : List String) : Prop :=
  ws ≠ [] ∧ (∀ w ∈ ws, ' ' ∉ w.toList) ∧ " ".intercalate ws = text

theorem words_eq_iff_madeOf {text : String} {ws : List String} :
    words text = ws ↔ MadeOf text ws := by
  rw [words_eq_iff, MadeOf, ← String.toList_inj, String.toList_intercalate]
  rfl

/-- A genesis whose first word is the mark has an answer, and no step on the way is without a
result.  There is a network if all conditions are met, and otherwise the error reports the first
one that is not.  The parameters follow from the block time and the first two tokens, and neither
the tag nor any other token makes a difference. -/
theorem variant_by_conditions {genesis : Genesis} {ws : List String}
    (hws : MadeOf genesis.extraData ws) (hmark : ws.head? = some mark) :
    genesis.checkedProtocol.run = some genesis.protocol ∧
      ((∃ protocol, genesis.protocol = .ok protocol) ↔
        ∀ c : Condition, c.Holds ws genesis.tokens) ∧
      (∀ error, genesis.protocol = .error error ↔
        ∃ c, Condition.FirstViolated ws genesis.tokens c ∧ Reports ws genesis.tokens error c) ∧
      (∀ protocol, genesis.protocol = .ok protocol → IsVariant ws genesis.tokens protocol) ∧
      ∀ (other : Genesis) (tag : String), MadeOf other.extraData (ws.set 1 tag) →
        other.tokens.take 2 = genesis.tokens.take 2 → other.protocol = genesis.protocol := by
  obtain rfl := words_eq_iff_madeOf.mpr hws
  refine ⟨checkedProtocol_eq genesis, exists_protocol_iff hmark,
    fun error => protocol_eq_error_iff hmark, fun protocol => isVariant_of_protocol hmark, ?_⟩
  intro other tag hother htokens
  exact protocol_congr rfl (words_eq_iff_madeOf.mpr hother) htokens

/-- A text with an empty tag and a block time that does not divide an hour, among three tokens. -/
def uneven : Genesis := ⟨73405, "HYPERQUBE  UNIFORM +007", [.qsr, .znn, .zero]⟩

theorem variant_by_conditions_uneven :
    MadeOf uneven.extraData [mark, "", "UNIFORM", "+007"] ∧
      ∃ protocol, uneven.protocol = .ok protocol ∧ protocol.znn = .qsr ∧
        protocol.momentumsPerHour.toNat = 514 ∧ protocol.updateInterval.toNat = 428 := by
  have hws : MadeOf uneven.extraData [mark, "", "UNIFORM", "+007"] :=
    ⟨by simp, by decide, by decide⟩
  have hseven : Decimal "+007" 7 := ⟨['0', '0', '7'], by decide, by simp, .inr rfl, rfl⟩
  obtain ⟨_, hexists, _, hvariant, _⟩ := variant_by_conditions hws rfl
  obtain ⟨protocol, hprotocol⟩ := hexists.mpr fun c => by
    cases c with
    | wordCount | algorithm => rfl
    | tokens => exact (by decide : 2 ≤ uneven.tokens.length)
    | number => exact ⟨_, rfl, 7, by decide, hseven⟩
    | range => exact ⟨_, rfl, 7, hseven, by decide⟩
  have h := hvariant protocol hprotocol
  obtain ⟨more, htokens⟩ := h.tokens
  obtain ⟨_, htime, hblockTime⟩ := h.blockTime
  cases htime
  have hhour : protocol.momentumsPerHour.toNat = 514 := by
    rw [h.perHour, hblockTime.unique hseven]
  refine ⟨hws, protocol, hprotocol, (List.cons.inj htokens).1.symm, hhour, ?_⟩
  rw [h.updateInterval, hhour]

-- of two violated conditions the first one is reported
example : (Genesis.mk 73405 "HYPERQUBE Z WEIGHTED ten" [.znn]).protocol =
    .error (.missingTokens 1) := by decide

end Genesis

end MomentumChain
