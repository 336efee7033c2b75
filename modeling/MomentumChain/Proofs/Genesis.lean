import Mathlib
import MomentumChain.Digits
import MomentumChain.Protocol

/-!
# What the mark of a genesis promises

A genesis is answered in one of seven ways, and what it says decides which (`Answers`,
`protocol_answers`).  Its words are those without spaces that make up its text
(`words_eq_iff`), and its block time is a number in decimal notation
(`readNumber?_eq_some_iff`).

A text that starts with the mark promises a network variant.  The promise is kept if the
genesis is refused or the text describes the variant that comes out (`Honoured`).  But only
the first word is compared with the mark.  So the promise is broken exactly where the mark is
glued to what follows it, be it a tab, and such a genesis passes for one of the main network
(`marked_honoured_iff`).
-/

namespace MomentumChain.Genesis

/-! ## Words -/

theorem splitWords_of_notMem {word : List Char} (h : ' ' ∉ word) : splitWords word = [word] := by
  induction word with
  | nil => rfl
  | cons c word ih =>
      obtain ⟨hc, hword⟩ := not_or.mp (mt List.mem_cons.mpr h)
      rw [splitWords, if_neg (Ne.symm hc), ih hword]

theorem splitWords_append {word : List Char} (rest : List Char) (h : ' ' ∉ word) :
    splitWords (word ++ ' ' :: rest) = word :: splitWords rest := by
  induction word with
  | nil => rfl
  | cons c word ih =>
      obtain ⟨hc, hword⟩ := not_or.mp (mt List.mem_cons.mpr h)
      rw [List.cons_append, splitWords, if_neg (Ne.symm hc), ih hword]

/-- Words without spaces are the words of the text that they make up. -/
theorem splitWords_intercalate {ws : List (List Char)} (hne : ws ≠ []) (h : ∀ w ∈ ws, ' ' ∉ w) :
    splitWords ([' '].intercalate ws) = ws := by
  induction ws with
  | nil => exact absurd rfl hne
  | cons w ws ih =>
      have hw := h w (List.mem_cons_self ..)
      cases ws with
      | nil => rw [List.intercalate_singleton, splitWords_of_notMem hw]
      | cons w' ws =>
          rw [List.intercalate_cons_cons, List.append_assoc, List.singleton_append,
            splitWords_append _ hw,
            ih (List.cons_ne_nil _ _) fun v hv => h v (List.mem_cons_of_mem _ hv)]

/-- A text is made up of its words, and these have no spaces. -/
theorem intercalate_splitWords (text : List Char) :
    splitWords text ≠ [] ∧ (∀ w ∈ splitWords text, ' ' ∉ w) ∧
      [' '].intercalate (splitWords text) = text := by
  induction text with
  | nil => simp [splitWords]
  | cons c rest ih =>
      obtain ⟨hne, hspaces, htext⟩ := ih
      obtain ⟨w, ws, hw⟩ := List.exists_cons_of_ne_nil hne
      rw [hw] at hspaces htext
      by_cases hc : c = ' '
      · rw [splitWords, if_pos hc, hw]
        refine ⟨List.cons_ne_nil _ _, ?_, ?_⟩
        · simpa using hspaces
        · rw [List.intercalate_cons_cons, htext, hc]
          rfl
      · rw [splitWords, if_neg hc, hw]
        refine ⟨List.cons_ne_nil _ _, ?_, ?_⟩
        · intro v hv
          cases List.mem_cons.mp hv with
          | inl heq =>
              rw [heq, List.mem_cons, not_or]
              exact ⟨Ne.symm hc, hspaces w (List.mem_cons_self ..)⟩
          | inr hmem => exact hspaces v (List.mem_cons_of_mem _ hmem)
        · cases ws with
          | nil =>
              rw [List.intercalate_singleton] at htext ⊢
              rw [htext]
          | cons w' ws =>
              rw [List.intercalate_cons_cons] at htext ⊢
              rw [List.cons_append, List.cons_append, htext]

/-- The first word goes up to the first space. -/
theorem head?_splitWords (text : List Char) :
    (splitWords text).head? = some (text.takeWhile (· ≠ ' ')) := by
  induction text with
  | nil => rfl
  | cons c rest ih =>
      by_cases hc : c = ' '
      · simp [splitWords, hc]
      · rw [splitWords, if_neg hc]
        cases hrest : splitWords rest with
        | nil => simp [hrest] at ih
        | cons w ws =>
            rw [hrest] at ih
            simp only [List.head?_cons, Option.some.injEq] at ih
            simp [hc, ih]

/-- The words of a text have no spaces and make it up, and nothing else does. -/
theorem words_eq_iff {text : String} {ws : List String} :
    words text = ws ↔ ws ≠ [] ∧ (∀ w ∈ ws, ' ' ∉ w.toList) ∧
      [' '].intercalate (ws.map String.toList) = text.toList := by
  have hback : ∀ ws : List String, (ws.map String.toList).map String.ofList = ws := by
    simp [List.map_map, Function.comp_def, String.ofList_toList]
  constructor
  · rintro rfl
    obtain ⟨hne, hspaces, htext⟩ := intercalate_splitWords text.toList
    have hlists : (words text).map String.toList = splitWords text.toList := by
      simp [words, Function.comp_def, String.toList_ofList]
    refine ⟨mt List.map_eq_nil_iff.mp hne, fun w hw => ?_, hlists ▸ htext⟩
    exact hspaces w.toList (hlists ▸ List.mem_map_of_mem hw)
  · rintro ⟨hne, hspaces, htext⟩
    rw [words, ← htext, splitWords_intercalate, hback]
    · simpa using hne
    · simpa using hspaces

theorem words_ne_nil (text : String) : words text ≠ [] := (words_eq_iff.mp rfl).1

/-! ## Numbers -/

/-- A number in decimal notation, with or without a plus sign. -/
def Decimal (word : String) (n : Nat) : Prop :=
  ∃ ds, ds ≠ [] ∧ (∀ c ∈ ds, '0' ≤ c ∧ c ≤ '9') ∧
    (word.toList = ds ∨ word.toList = '+' :: ds) ∧
    ofDigits 10 (ds.map fun c => c.toNat - '0'.toNat) = n

theorem le_ofDigitsAfter (value : Nat) (ds : List Nat) : value ≤ ofDigitsAfter 10 value ds := by
  induction ds generalizing value with
  | nil => exact Nat.le_refl _
  | cons d ds ih =>
      calc value ≤ 10 * value + d := by omega
        _ ≤ ofDigitsAfter 10 (10 * value + d) ds := ih _

theorem readDigits_eq_some_iff {value : Nat} {ds : List Char} {n : UInt64}
    (hvalue : value < UInt64.size) :
    readDigits value ds = some n ↔ (∀ c ∈ ds, '0' ≤ c ∧ c ≤ '9') ∧
      ofDigitsAfter 10 value (ds.map fun c => c.toNat - '0'.toNat) = n.toNat := by
  induction ds generalizing value with
  | nil =>
      rw [readDigits, Option.some.injEq, ← UInt64.toNat_inj, UInt64.toNat_ofNat',
        Nat.mod_eq_of_lt hvalue]
      simp [ofDigitsAfter]
  | cons c ds ih =>
      rw [readDigits, List.forall_mem_cons, List.map_cons]
      by_cases hc : '0' ≤ c ∧ c ≤ '9'
      · have hnext : ofDigitsAfter 10 value
            ((c.toNat - '0'.toNat) :: ds.map fun c => c.toNat - '0'.toNat) =
              ofDigitsAfter 10 (10 * value + (c.toNat - '0'.toNat))
                (ds.map fun c => c.toNat - '0'.toNat) := rfl
        rw [if_pos hc, hnext]
        by_cases hfits : 10 * value + (c.toNat - '0'.toNat) < UInt64.size
        · simp only [hfits, if_true, ih hfits, hc, true_and]
        · -- more digits do not make the number smaller
          have hle := le_ofDigitsAfter (10 * value + (c.toNat - '0'.toNat))
            (ds.map fun c => c.toNat - '0'.toNat)
          have hlt : n.toNat < UInt64.size := n.toNat_lt
          simp only [hfits, if_false]
          constructor
          · intro h
            cases h
          · rintro ⟨_, hsum⟩
            omega
      · simp [hc]

theorem readNumber?_eq_some_iff {word : String} {n : UInt64} :
    readNumber? word = some n ↔ Decimal word n.toNat := by
  have hzero : 0 < UInt64.size := by decide
  unfold readNumber? Decimal
  split
  · next c rest h =>
    rw [readDigits_eq_some_iff hzero, h]
    constructor
    · rintro ⟨hdigits, hn⟩
      exact ⟨c :: rest, List.cons_ne_nil _ _, hdigits, .inr rfl, hn⟩
    · rintro ⟨ds, _, hdigits, hword | hword, hn⟩
      · have hplus := hdigits '+' (by simp [← hword])
        simp at hplus
      · cases hword
        exact ⟨hdigits, hn⟩
  · next c rest hplus h =>
    rw [readDigits_eq_some_iff hzero, h]
    constructor
    · rintro ⟨hdigits, hn⟩
      exact ⟨c :: rest, List.cons_ne_nil _ _, hdigits, .inl rfl, hn⟩
    · rintro ⟨ds, hne, hdigits, hword | hword, hn⟩
      · cases hword
        exact ⟨hdigits, hn⟩
      · obtain ⟨d, ds', rfl⟩ := List.exists_cons_of_ne_nil hne
        cases hword
        exact (hplus d ds' rfl rfl).elim
  · next h =>
    simp only [h, reduceCtorEq, false_iff]
    rintro ⟨ds, hne, _, hword | hword, _⟩
    · exact hne hword.symm
    · cases hword

/-! ## What a genesis leads to -/

/-- The parameters of a network variant. -/
def variant (znn qsr : Token) (seconds : UInt64) : Protocol :=
  { Protocol.mainnet with
    znn := znn
    qsr := qsr
    consensus := { Protocol.mainnet.consensus with countingToken := znn } }.withBlockTime seconds

/-- The answers to a genesis, each with what the genesis says. -/
inductive Answers (genesis : Genesis) : Except Error Protocol → Prop where
  | unmarked {first : String} {rest : List String}
      (text : words genesis.extraData = first :: rest) (first_ne : first ≠ mark) :
      Answers genesis (.ok .mainnet)
  | wrongWordCount {rest : List String} (text : words genesis.extraData = mark :: rest)
      (count : rest.length ≠ 3) : Answers genesis (.error (.wrongWordCount (rest.length + 1)))
  | missingTokens {tag algorithm time : String}
      (text : words genesis.extraData = [mark, tag, algorithm, time])
      (tokens : genesis.tokens.length < 2) :
      Answers genesis (.error (.missingTokens genesis.tokens.length))
  | unknownAlgorithm {tag algorithm time : String}
      (text : words genesis.extraData = [mark, tag, algorithm, time])
      (tokens : 2 ≤ genesis.tokens.length) (algorithm_ne : algorithm ≠ "UNIFORM") :
      Answers genesis (.error (.unknownAlgorithm algorithm))
  | invalidBlockTime {tag time : String}
      (text : words genesis.extraData = [mark, tag, "UNIFORM", time])
      (tokens : 2 ≤ genesis.tokens.length)
      (number : ∀ seconds : UInt64, ¬ Decimal time seconds.toNat) :
      Answers genesis (.error (.invalidBlockTime time))
  | blockTimeOutOfRange {tag time : String} {seconds : UInt64}
      (text : words genesis.extraData = [mark, tag, "UNIFORM", time])
      (tokens : 2 ≤ genesis.tokens.length) (number : Decimal time seconds.toNat)
      (range : seconds.toNat = 0 ∨ 3600 < seconds.toNat) :
      Answers genesis (.error (.blockTimeOutOfRange seconds))
  | variant {tag time : String} {seconds : UInt64} {znn qsr : Token} {more : List Token}
      (text : words genesis.extraData = [mark, tag, "UNIFORM", time])
      (tokens : genesis.tokens = znn :: qsr :: more) (number : Decimal time seconds.toNat)
      (range : 1 ≤ seconds.toNat ∧ seconds.toNat ≤ 3600) :
      Answers genesis (.ok (variant znn qsr seconds))

section

variable {genesis : Genesis} {tag algorithm time : String} {seconds : UInt64} {znn qsr : Token}
  {more : List Token}

theorem outOfRange_iff : (seconds = 0 ∨ maxBlockTime < seconds) ↔
    (seconds.toNat = 0 ∨ 3600 < seconds.toNat) := by
  have hmax : maxBlockTime.toNat = 3600 := rfl
  rw [UInt64.lt_iff_toNat_lt, hmax, ← UInt64.toNat_inj, UInt64.toNat_zero]

theorem protocol_of_variant (hwords : words genesis.extraData = [mark, tag, "UNIFORM", time])
    (htokens : genesis.tokens = znn :: qsr :: more) (hnumber : Decimal time seconds.toNat)
    (hrange : 1 ≤ seconds.toNat ∧ seconds.toNat ≤ 3600) :
    genesis.protocol = .ok (variant znn qsr seconds) := by
  have hread := readNumber?_eq_some_iff.mpr hnumber
  have hwithin : ¬ (seconds = 0 ∨ maxBlockTime < seconds) := by
    rw [outOfRange_iff]
    omega
  simp [protocol, hwords, htokens, ElectionAlgorithm.ofWord?, hread, hwithin]
  rfl

/-- The block time of a variant decides on its parameters. -/
theorem answers_of_time (hwords : words genesis.extraData = [mark, tag, "UNIFORM", time])
    (htokens : genesis.tokens = znn :: qsr :: more) : Answers genesis genesis.protocol := by
  have hlong : 2 ≤ genesis.tokens.length := by simp [htokens]
  cases hnumber : readNumber? time with
  | none =>
      have hanswer : genesis.protocol = .error (.invalidBlockTime time) := by
        simp [protocol, hwords, htokens, ElectionAlgorithm.ofWord?, hnumber]
        rfl
      rw [hanswer]
      refine .invalidBlockTime hwords hlong fun seconds hdecimal => ?_
      rw [readNumber?_eq_some_iff.mpr hdecimal] at hnumber
      cases hnumber
  | some seconds =>
      have hdecimal := readNumber?_eq_some_iff.mp hnumber
      by_cases hrange : seconds = 0 ∨ maxBlockTime < seconds
      · have hanswer : genesis.protocol = .error (.blockTimeOutOfRange seconds) := by
          simp [protocol, hwords, htokens, ElectionAlgorithm.ofWord?, hnumber, hrange]
          rfl
        rw [hanswer]
        exact .blockTimeOutOfRange hwords hlong hdecimal (outOfRange_iff.mp hrange)
      · rw [outOfRange_iff] at hrange
        rw [protocol_of_variant hwords htokens hdecimal (by omega)]
        exact .variant hwords htokens hdecimal (by omega)

/-- Four words are looked at once there are two tokens. -/
theorem answers_of_words (hwords : words genesis.extraData = [mark, tag, algorithm, time]) :
    Answers genesis genesis.protocol := by
  by_cases hlong : 2 ≤ genesis.tokens.length
  · obtain ⟨znn, qsr, more, htokens⟩ : ∃ znn qsr more, genesis.tokens = znn :: qsr :: more := by
      match htokens : genesis.tokens with
      | [] | [_] => simp [htokens] at hlong
      | znn :: qsr :: more => exact ⟨znn, qsr, more, rfl⟩
    by_cases halgorithm : algorithm = "UNIFORM"
    · subst halgorithm
      exact answers_of_time hwords htokens
    · have hanswer : genesis.protocol = .error (.unknownAlgorithm algorithm) := by
        simp [protocol, hwords, htokens, ElectionAlgorithm.ofWord?, halgorithm]
        rfl
      rw [hanswer]
      exact .unknownAlgorithm hwords hlong halgorithm
  · have hanswer : genesis.protocol = .error (.missingTokens genesis.tokens.length) := by
      match htokens : genesis.tokens with
      | [] | [_] => simp [protocol, hwords, htokens]
      | _ :: _ :: _ => simp [htokens] at hlong
    rw [hanswer]
    exact .missingTokens hwords (by omega)

end

/-- A genesis is answered in one of these ways. -/
theorem protocol_answers (genesis : Genesis) : Answers genesis genesis.protocol := by
  obtain ⟨first, rest, hwords⟩ := List.exists_cons_of_ne_nil (words_ne_nil genesis.extraData)
  by_cases hfirst : first = mark
  · subst hfirst
    by_cases hcount : rest.length = 3
    · obtain ⟨tag, algorithm, time, rfl⟩ := List.length_eq_three.mp hcount
      exact answers_of_words hwords
    · have hanswer : genesis.protocol = .error (.wrongWordCount (rest.length + 1)) := by
        match rest, hcount with
        | [], _ | [_], _ | [_, _], _ | _ :: _ :: _ :: _ :: _, _ => simp [protocol, hwords]
      rw [hanswer]
      exact .wrongWordCount hwords hcount
  · have hanswer : genesis.protocol = .ok .mainnet := by simp [protocol, hwords, hfirst]
    rw [hanswer]
    exact .unmarked hwords hfirst

/-! ## What the mark promises -/

/-- The text of the genesis starts with the mark. -/
def Marked (genesis : Genesis) : Prop := mark.toList <+: genesis.extraData.toList

/-- The mark is followed by something other than a space. -/
def Glued (genesis : Genesis) : Prop :=
  ∃ c rest, genesis.extraData.toList = mark.toList ++ c :: rest ∧ c ≠ ' '

/-- The text describes a network variant: the mark, a tag, the algorithm and a block time of at
most an hour, separated by single spaces. -/
structure Describes (genesis : Genesis) (seconds : UInt64) (znn qsr : Token) : Prop where
  text : ∃ tag time, genesis.extraData = mark ++ " " ++ tag ++ " UNIFORM " ++ time ∧
    ' ' ∉ tag.toList ∧ Decimal time seconds.toNat
  range : 1 ≤ seconds.toNat ∧ seconds.toNat ≤ 3600
  tokens : ∃ more, genesis.tokens = znn :: qsr :: more

/-- The genesis is refused, or its network is the variant that its text describes. -/
def Honoured (genesis : Genesis) : Prop :=
  ∀ protocol, genesis.protocol = .ok protocol → ∃ seconds znn qsr,
    Describes genesis seconds znn qsr ∧ protocol.consensus.blockTime = seconds ∧
      protocol.znn = znn ∧ protocol.qsr = qsr

theorem Decimal.space_notMem {word : String} {n : Nat} (h : Decimal word n) :
    ' ' ∉ word.toList := by
  obtain ⟨ds, _, hdigits, hword, _⟩ := h
  have hds : ' ' ∉ ds := fun hmem => absurd (hdigits ' ' hmem) (by decide)
  cases hword with
  | inl hword => rwa [hword]
  | inr hword => simp [hword, hds]

/-- The text of a variant is told by its words. -/
theorem words_variant {text tag time : String} :
    words text = [mark, tag, "UNIFORM", time] ↔
      text = mark ++ " " ++ tag ++ " UNIFORM " ++ time ∧ ' ' ∉ tag.toList ∧ ' ' ∉ time.toList := by
  have hmark : ' ' ∉ mark.toList := by decide
  have huniform : ' ' ∉ "UNIFORM".toList := by decide
  have htext : [' '].intercalate ([mark, tag, "UNIFORM", time].map String.toList) =
      (mark ++ " " ++ tag ++ " UNIFORM " ++ time).toList := by
    simp [List.intercalate_cons_cons]
  rw [words_eq_iff, htext, String.toList_inj]
  constructor
  · rintro ⟨_, hspaces, heq⟩
    exact ⟨heq.symm, hspaces tag (by simp), hspaces time (by simp)⟩
  · rintro ⟨heq, htag, htime⟩
    refine ⟨List.cons_ne_nil _ _, ?_, heq.symm⟩
    simp only [List.forall_mem_cons]
    exact ⟨hmark, htag, huniform, htime, by simp⟩

/-- A text that starts with the mark has it as its first word unless it is glued. -/
theorem glued_iff {genesis : Genesis} (h : Marked genesis) {first : String} {rest : List String}
    (hwords : words genesis.extraData = first :: rest) : Glued genesis ↔ first ≠ mark := by
  obtain ⟨more, hmore⟩ := h
  have hspace : ' ' ∉ mark.toList := by decide
  have hmark : ∀ c ∈ mark.toList, decide (c ≠ ' ') = true :=
    fun c hc => decide_eq_true fun heq => hspace (heq ▸ hc)
  have hfirst : first = String.ofList (mark.toList ++ more.takeWhile (· ≠ ' ')) := by
    have hhead := congrArg List.head? hwords
    rw [words, List.head?_map, head?_splitWords, ← hmore,
      List.takeWhile_append_of_pos hmark] at hhead
    exact (Option.some.inj hhead).symm
  have hglued : Glued genesis ↔ ∃ c rest, more = c :: rest ∧ c ≠ ' ' := by
    simp only [Glued, ← hmore, List.append_cancel_left_eq]
  have hplain : first = mark ↔ more.takeWhile (· ≠ ' ') = [] := by
    rw [hfirst, ← String.toList_inj, String.toList_ofList, List.append_right_eq_self]
  rw [hglued, ne_eq, hplain]
  cases more with
  | nil => simp
  | cons c rest => simp [List.takeWhile_cons]

/-- A description is a text of four words. -/
theorem Describes.words_eq {genesis : Genesis} {seconds : UInt64} {znn qsr : Token}
    (h : Describes genesis seconds znn qsr) :
    ∃ tag time, words genesis.extraData = [mark, tag, "UNIFORM", time] ∧
      Decimal time seconds.toNat := by
  obtain ⟨tag, time, htext, htag, htime⟩ := h.text
  exact ⟨tag, time, words_variant.mpr ⟨htext, htag, htime.space_notMem⟩, htime⟩

/-- A genesis whose mark is glued is taken for one of the main network. -/
theorem protocol_of_glued {genesis : Genesis} (h : Marked genesis) (hglued : Glued genesis) :
    genesis.protocol = .ok .mainnet := by
  have hanswers := protocol_answers genesis
  generalize genesis.protocol = answer at *
  cases hanswers with
  | unmarked => rfl
  | wrongWordCount text | missingTokens text | unknownAlgorithm text | invalidBlockTime text
  | blockTimeOutOfRange text | variant text => exact absurd rfl ((glued_iff h text).mp hglued)

theorem honoured_of_not_glued {genesis : Genesis} (h : Marked genesis)
    (hplain : ¬ Glued genesis) : Honoured genesis := by
  intro protocol hprotocol
  have hanswers := protocol_answers genesis
  rw [hprotocol] at hanswers
  cases hanswers with
  | unmarked text first_ne => exact absurd ((glued_iff h text).mpr first_ne) hplain
  | @variant tag time seconds znn qsr more text tokens number range =>
      obtain ⟨htext, htag, _⟩ := words_variant.mp text
      have describes : Describes genesis seconds znn qsr :=
        ⟨⟨tag, time, htext, htag, number⟩, range, more, tokens⟩
      exact ⟨seconds, znn, qsr, describes, rfl, rfl, rfl⟩

theorem Describes.protocol_eq {genesis : Genesis} {seconds : UInt64} {znn qsr : Token}
    (h : Describes genesis seconds znn qsr) :
    genesis.protocol = .ok (variant znn qsr seconds) := by
  obtain ⟨tag, time, hwords, htime⟩ := h.words_eq
  obtain ⟨more, htokens⟩ := h.tokens
  exact protocol_of_variant hwords htokens htime h.range

/-- A genesis that starts with the mark is honoured unless the mark is glued to what follows.
If it is glued then the network has the parameters of the main network.  If it is not then
every genesis that does not describe a variant is refused, and no other. -/
theorem marked_honoured_iff (genesis : Genesis) (h : Marked genesis) :
    (Honoured genesis ↔ ¬ Glued genesis) ∧
      (Glued genesis → genesis.protocol = .ok .mainnet) ∧
      (¬ Glued genesis → ((∃ error, genesis.protocol = .error error) ↔
        ¬ ∃ seconds znn qsr, Describes genesis seconds znn qsr)) := by
  refine ⟨⟨fun honoured hglued => ?_, honoured_of_not_glued h⟩, protocol_of_glued h,
    fun hplain => ⟨?_, fun hnone => ?_⟩⟩
  · obtain ⟨_, _, _, hdescribes, _⟩ := honoured _ (protocol_of_glued h hglued)
    obtain ⟨_, _, hwords, _⟩ := hdescribes.words_eq
    exact (glued_iff h hwords).mp hglued rfl
  · rintro ⟨error, herror⟩ ⟨_, _, _, hdescribes⟩
    rw [hdescribes.protocol_eq] at herror
    cases herror
  · cases hprotocol : genesis.protocol with
    | error error => exact ⟨error, rfl⟩
    | ok protocol =>
        obtain ⟨seconds, znn, qsr, hdescribes, _⟩ := honoured_of_not_glued h hplain _ hprotocol
        exact absurd ⟨seconds, znn, qsr, hdescribes⟩ hnone

/-- A text with an empty tag and a block time with a sign and leading zeros. -/
def untagged : Genesis := ⟨73405, "HYPERQUBE  UNIFORM +0060", [.qsr, .znn, .zero]⟩

theorem marked_honoured_iff_untagged :
    Marked untagged ∧ Honoured untagged ∧ ¬ ∃ error, untagged.protocol = .error error := by
  have hmarked : Marked untagged := by
    unfold Marked
    decide
  have hdescribes : Describes untagged 60 .qsr .znn :=
    ⟨⟨"", "+0060", rfl, by decide, ['0', '0', '6', '0'], by decide, by simp, .inr rfl, rfl⟩,
      by decide, [.zero], rfl⟩
  have hplain : ¬ Glued untagged := by
    obtain ⟨_, _, hwords, _⟩ := hdescribes.words_eq
    rw [glued_iff hmarked hwords]
    exact not_not_intro rfl
  obtain ⟨hhonoured, _, herror⟩ := marked_honoured_iff untagged hmarked
  refine ⟨hmarked, hhonoured.mpr hplain, fun h => ?_⟩
  exact (herror hplain).mp h ⟨60, .qsr, .znn, hdescribes⟩

/-- Tabs stand in the place of the spaces. -/
def tabbed : Genesis :=
  ⟨73405, "HYPERQUBE\tZ\tUNIFORM\t60", [.znn, .qsr]⟩

theorem tabbed_falls_back : Marked tabbed ∧ tabbed.protocol = .ok .mainnet ∧ ¬ Honoured tabbed := by
  have hmarked : Marked tabbed := by
    unfold Marked
    decide
  have hwords : words tabbed.extraData = ["HYPERQUBE\tZ\tUNIFORM\t60"] := by decide
  have hmain : tabbed.protocol = .ok .mainnet := by
    have hne : "HYPERQUBE\tZ\tUNIFORM\t60" ≠ mark := by decide
    simp [protocol, hwords, hne]
  refine ⟨hmarked, hmain, fun honoured => ?_⟩
  obtain ⟨seconds, znn, qsr, hdescribes, _⟩ := honoured _ hmain
  obtain ⟨tag, time, hfour, _⟩ := hdescribes.words_eq
  rw [hwords] at hfour
  exact absurd (congrArg List.length hfour) (by simp)

end MomentumChain.Genesis
