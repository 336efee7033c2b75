import MomentumChain.Proofs.Contract.Selector
import Mathlib.Data.List.Nodup

/-!
# Dispatch

A call is dispatched by the address of the contract and the first four bytes of its data.  The
outcome of a look-up is one of four (`Finds`), and which one it is follows from the methods that
the sporks enable (`Enabled`).  Since no two methods share a selector, the outcome is determined
(`lookup_eq_iff`).  More sporks enable more methods and take none away, so a method that is found
stays found.

The contracts under some sporks are put together from a base and the overlays of the sporks.  An
overlay replaces what is at an address or under a selector, but nothing is ever there
(`overlaid_eq_resolve`).
-/

namespace MomentumChain.Contract

/-! ## Overlays -/

namespace Entry

/-- The contract with a method under its selector. -/
def withMethod (entry : Entry) (method : Method) : Entry :=
  { entry with
    methods := entry.methods.filter (fun other => other.selector ≠ method.selector) ++ [method] }

/-- A contract with some methods, put in one after the other. -/
def ofMethods (address : Address) (methods : List Method) : Entry :=
  methods.foldl withMethod ⟨address, []⟩

/-- A method that is not there yet replaces no other. -/
theorem withMethod_of_notMem {entry : Entry} {method : Method} (h : method ∉ entry.methods) :
    entry.withMethod method = { entry with methods := entry.methods ++ [method] } := by
  have hfilter : entry.methods.filter (fun other => other.selector ≠ method.selector) =
      entry.methods := by
    refine List.filter_eq_self.mpr fun other hother => decide_eq_true fun hselector => h ?_
    exact Method.selector_injective hselector ▸ hother
  rw [withMethod, hfilter]

theorem foldl_withMethod {address : Address} : ∀ {before methods : List Method},
    (before ++ methods).Nodup →
      methods.foldl withMethod ⟨address, before⟩ = ⟨address, before ++ methods⟩
  | before, [], _ => by rw [List.append_nil, List.foldl_nil]
  | before, method :: methods, h => by
      have hnew : method ∉ before := fun hmem =>
        List.disjoint_of_nodup_append h hmem (List.mem_cons_self ..)
      rw [List.append_cons] at h ⊢
      rw [List.foldl_cons, withMethod_of_notMem hnew, foldl_withMethod h]

theorem ofMethods_eq {address : Address} {methods : List Method} (h : methods.Nodup) :
    ofMethods address methods = ⟨address, methods⟩ := foldl_withMethod h

end Entry

namespace DispatchTable

/-- The table with a contract at its address. -/
def put (entry : Entry) : DispatchTable → DispatchTable
  | [] => [entry]
  | head :: tail =>
      if entry.address < head.address then entry :: head :: tail
      else if entry.address = head.address then entry :: tail
      else head :: put entry tail

/-- The table with a method added to the contract at an address. -/
def extend (address : Address) (method : Method) (table : DispatchTable) : DispatchTable :=
  put (((table.contract? address).getD ⟨address, []⟩).withMethod method) table

/-- What each spork changes, in the order of the changes. -/
def overlays : List (Spork × (DispatchTable → DispatchTable)) :=
  [(.accelerator, put (.ofMethods .acceleratorContract [.donate])),
   (.dynamicPlasma, extend .plasmaContract .setVariables)]

/-- The contracts before any spork, put in one after the other. -/
def ground : DispatchTable :=
  [.ofMethods .plasmaContract [.fuse, .cancelFuse],
   .ofMethods .sporkContract [.createSpork, .activateSpork],
   .ofMethods .liquidityContract [.donate]].foldl (fun table entry => table.put entry) []

/-- The contracts under some sporks, as overlays of the ground. -/
def overlaid (active : Spork.Active) : DispatchTable :=
  overlays.foldl
    (fun table (spork, overlay) => if active.contains spork then overlay table else table) ground

theorem extend_of_contract? {table : DispatchTable} {address : Address} {method : Method}
    (entry : Entry) (hentry : table.contract? address = some entry)
    (hnew : method ∉ entry.methods) :
    table.extend address method =
      table.put { entry with methods := entry.methods ++ [method] } := by
  rw [extend, hentry, Option.getD_some, Entry.withMethod_of_notMem hnew]

/-- The overlays find nothing to replace. -/
theorem overlaid_eq_resolve (active : Spork.Active) : overlaid active = resolve active := by
  have hground : ground = base := by
    simp only [ground, Entry.ofMethods_eq (List.nodup_singleton _),
      Entry.ofMethods_eq (show [Method.fuse, .cancelFuse].Nodup by decide),
      Entry.ofMethods_eq (show [Method.createSpork, .activateSpork].Nodup by decide)]
    decide
  simp only [overlaid, overlays, List.foldl_cons, List.foldl_nil, hground,
    Entry.ofMethods_eq (List.nodup_singleton _)]
  cases haccelerator : active.contains .accelerator <;>
    cases hdynamic : active.contains .dynamicPlasma <;>
    simp only [resolve, haccelerator, hdynamic, if_true, Bool.false_eq_true, if_false]
  · decide
  · rw [extend_of_contract? ⟨.plasmaContract, [.fuse, .cancelFuse]⟩ rfl (by decide)]
    decide
  · decide
  · rw [extend_of_contract? ⟨.plasmaContract, [.fuse, .cancelFuse]⟩ rfl (by decide)]
    decide

end DispatchTable

/-! ## Methods under some sporks -/

/-- The sporks enable a method of the contract at an address. -/
inductive Enabled (active : Spork.Active) : Address → Method → Prop
  | fuse : Enabled active .plasmaContract .fuse
  | cancelFuse : Enabled active .plasmaContract .cancelFuse
  | setVariables (h : active.contains .dynamicPlasma = true) :
      Enabled active .plasmaContract .setVariables
  | createSpork : Enabled active .sporkContract .createSpork
  | activateSpork : Enabled active .sporkContract .activateSpork
  | fund (h : active.contains .accelerator = true) : Enabled active .acceleratorContract .donate
  | donate : Enabled active .liquidityContract .donate

theorem Enabled.mono {active later : Spork.Active}
    (h : ∀ spork, active.contains spork = true → later.contains spork = true) {address : Address}
    {method : Method} (henabled : Enabled active address method) :
    Enabled later address method := by
  cases henabled with
  | fuse => exact .fuse
  | cancelFuse => exact .cancelFuse
  | setVariables hactive => exact .setVariables (h _ hactive)
  | createSpork => exact .createSpork
  | activateSpork => exact .activateSpork
  | fund hactive => exact .fund (h _ hactive)
  | donate => exact .donate

namespace DispatchTable

/-- There is a contract at the address. -/
def Lists (table : DispatchTable) (address : Address) : Prop :=
  ∃ entry ∈ table, entry.address = address

variable {active : Spork.Active} {address : Address} {data : Bytes}

theorem mem_resolve_iff {entry : Entry} : entry ∈ resolve active ↔
    entry = ⟨.plasmaContract,
        [.fuse, .cancelFuse] ++ if active.contains .dynamicPlasma then [.setVariables] else []⟩ ∨
      entry = ⟨.sporkContract, [.createSpork, .activateSpork]⟩ ∨
      (active.contains .accelerator = true ∧ entry = ⟨.acceleratorContract, [.donate]⟩) ∨
      entry = ⟨.liquidityContract, [.donate]⟩ := by
  cases haccelerator : active.contains .accelerator <;> simp [resolve, haccelerator]

theorem isContract_of_lists (h : (resolve active).Lists address) : address.isContract = true := by
  obtain ⟨entry, hmem, rfl⟩ := h
  rcases mem_resolve_iff.mp hmem with rfl | rfl | ⟨_, rfl⟩ | rfl <;> rfl

theorem nodup_addresses (active : Spork.Active) :
    ((resolve active).map Entry.address).Nodup := by
  cases haccelerator : active.contains .accelerator <;>
    simp only [resolve, haccelerator, List.map_append, List.map_cons, List.map_nil, if_true,
      Bool.false_eq_true, if_false] <;>
    decide

/-- The contract at an address is the one that is listed with it. -/
theorem contract?_of_mem {entry : Entry} (h : entry ∈ resolve active) :
    (resolve active).contract? entry.address = some entry := by
  cases hfound : (resolve active).contract? entry.address with
  | none =>
      have hother := List.find?_eq_none.mp hfound entry h
      simp at hother
  | some found =>
      have haddress : found.address = entry.address := by simpa using List.find?_some hfound
      rw [List.inj_on_of_nodup_map (nodup_addresses active) (List.mem_of_find?_eq_some hfound) h
        haddress]

theorem contract?_of_not_lists {table : DispatchTable} (h : ¬ table.Lists address) :
    table.contract? address = none := by
  refine List.find?_eq_none.mpr fun entry hmem haddress => h ⟨entry, hmem, ?_⟩
  simpa using haddress

/-- The enabled methods are those of the listed contracts. -/
theorem enabled_iff {method : Method} : Enabled active address method ↔
    ∃ entry ∈ resolve active, entry.address = address ∧ method ∈ entry.methods := by
  constructor
  · intro h
    cases h with
    | fuse => exact ⟨_, mem_resolve_iff.mpr (.inl rfl), rfl, by simp⟩
    | cancelFuse => exact ⟨_, mem_resolve_iff.mpr (.inl rfl), rfl, by simp⟩
    | setVariables h => exact ⟨_, mem_resolve_iff.mpr (.inl rfl), rfl, by simp [h]⟩
    | createSpork => exact ⟨_, mem_resolve_iff.mpr (.inr (.inl rfl)), rfl, by simp⟩
    | activateSpork => exact ⟨_, mem_resolve_iff.mpr (.inr (.inl rfl)), rfl, by simp⟩
    | fund h => exact ⟨_, mem_resolve_iff.mpr (.inr (.inr (.inl ⟨h, rfl⟩))), rfl, by simp⟩
    | donate => exact ⟨_, mem_resolve_iff.mpr (.inr (.inr (.inr rfl))), rfl, by simp⟩
  · rintro ⟨entry, hmem, rfl, hmethod⟩
    rcases mem_resolve_iff.mp hmem with rfl | rfl | ⟨haccelerator, rfl⟩ | rfl <;>
      simp only [List.mem_append, List.mem_cons, List.not_mem_nil, or_false] at hmethod
    · rcases hmethod with (rfl | rfl) | hset
      · exact .fuse
      · exact .cancelFuse
      · split at hset
        · case isTrue hdynamic =>
            rw [List.mem_singleton.mp hset]
            exact .setVariables hdynamic
        · cases hset
    · rcases hmethod with rfl | rfl
      · exact .createSpork
      · exact .activateSpork
    · rw [hmethod]
      exact .fund haccelerator
    · rw [hmethod]
      exact .donate

/-! ## Outcomes of a look-up -/

/-- What a look-up finds under some sporks. -/
inductive Finds (active : Spork.Active) (address : Address) (data : Bytes) :
    Except Error Method → Prop
  | user (h : address.isContract = false) : Finds active address data (.error .notContractAddress)
  | absent (h : address.isContract = true) (habsent : ¬ (resolve active).Lists address) :
      Finds active address data (.error .noContract)
  | unnamed (h : (resolve active).Lists address)
      (hnone : ∀ method, Enabled active address method →
        data.take selectorSize ≠ method.selector) :
      Finds active address data (.error .noMethod)
  | found {method : Method} (h : Enabled active address method)
      (hselector : data.take selectorSize = method.selector) :
      Finds active address data (.ok method)

theorem exists_finds (active : Spork.Active) (address : Address) (data : Bytes) :
    ∃ result, Finds active address data result := by
  cases hcontract : address.isContract with
  | false => exact ⟨_, .user hcontract⟩
  | true =>
      by_cases hlisted : (resolve active).Lists address
      · by_cases hfound : ∃ method, Enabled active address method ∧
            data.take selectorSize = method.selector
        · obtain ⟨method, henabled, hselector⟩ := hfound
          exact ⟨_, .found henabled hselector⟩
        · exact ⟨_, .unnamed hlisted fun method henabled hselector =>
            hfound ⟨method, henabled, hselector⟩⟩
      · exact ⟨_, .absent hcontract hlisted⟩

/-- A look-up at a listed contract. -/
theorem lookup_of_mem {entry : Entry} (h : entry ∈ resolve active) (data : Bytes) :
    (resolve active).lookup entry.address data =
      if selectorSize ≤ data.length then
        (entry.method? (data.take selectorSize)).elim (.error .noMethod) .ok
      else .error .noMethod := by
  rw [lookup, isContract_of_lists ⟨entry, h, rfl⟩, contract?_of_mem h]
  simp only [splitCall?, Format.take?]
  by_cases hlength : selectorSize ≤ data.length
  · simp only [hlength, if_true]
    cases entry.method? (data.take selectorSize) <;> rfl
  · simp only [hlength, if_false]
    rfl

theorem Finds.lookup_eq {result : Except Error Method} (h : Finds active address data result) :
    (resolve active).lookup address data = result := by
  cases h with
  | user huser => rw [lookup, huser]; rfl
  | absent hcontract habsent => rw [lookup, hcontract, contract?_of_not_lists habsent]; rfl
  | unnamed hlisted hnone =>
      obtain ⟨entry, hmem, rfl⟩ := hlisted
      rw [lookup_of_mem hmem]
      cases hfound : entry.method? (data.take selectorSize) with
      | none => simp
      | some method =>
          obtain ⟨hmethod, hselector⟩ := Entry.method?_eq_some_iff.mp hfound
          exact absurd hselector.symm (hnone method (enabled_iff.mpr ⟨entry, hmem, rfl, hmethod⟩))
  | found henabled hselector =>
      obtain ⟨entry, hmem, rfl, hmethod⟩ := enabled_iff.mp henabled
      have hlength := congrArg List.length hselector
      rw [Method.length_selector, List.length_take] at hlength
      rw [lookup_of_mem hmem, if_pos (by omega),
        Entry.method?_eq_some_iff.mpr ⟨hmethod, hselector.symm⟩, Option.elim_some]

/-- A look-up finds what the enabled methods say, and nothing else. -/
theorem lookup_eq_iff {result : Except Error Method} :
    (resolve active).lookup address data = result ↔ Finds active address data result := by
  constructor
  · rintro rfl
    obtain ⟨result, h⟩ := exists_finds active address data
    rw [h.lookup_eq]
    exact h
  · exact Finds.lookup_eq

/-- A selector that some bytes begin with needs at least its own length of them. -/
theorem short_or_ne_iff {methods : Method → Prop} :
    (data.length < selectorSize ∨
        ∀ method, methods method → data.take selectorSize ≠ method.selector) ↔
      ∀ method, methods method → data.take selectorSize ≠ method.selector := by
  refine or_iff_right_of_imp fun hshort method _ hselector => ?_
  have hlength := congrArg List.length hselector
  rw [Method.length_selector, List.length_take] at hlength
  omega

theorem Finds.of_take {call : Bytes} (hcall : call.take selectorSize = data.take selectorSize)
    {result : Except Error Method} (h : Finds active address data result) :
    Finds active address call result := by
  cases h with
  | user huser => exact .user huser
  | absent hcontract habsent => exact .absent hcontract habsent
  | unnamed hlisted hnone => exact .unnamed hlisted fun m hm => hcall ▸ hnone m hm
  | found henabled hselector => exact .found henabled (hcall.trans hselector)

theorem resolve_congr {other : Spork.Active}
    (haccelerator : other.contains .accelerator = active.contains .accelerator)
    (hdynamic : other.contains .dynamicPlasma = active.contains .dynamicPlasma) :
    resolve other = resolve active := by
  rw [resolve, resolve, haccelerator, hdynamic]

/-- A look-up in the overlaid table names the one enabled method under the first bytes of the
data, or fails for the first of three reasons.  More sporks leave every method that is found, and
only two of them and the first bytes of the data count. -/
theorem dispatch_by_selector (active : Spork.Active) (address : Address) (data : Bytes) :
    overlaid active = resolve active ∧
    ((resolve active).lookup address data = .error .notContractAddress ↔
      address.isContract = false) ∧
    ((resolve active).lookup address data = .error .noContract ↔
      address.isContract = true ∧ ¬ (resolve active).Lists address) ∧
    ((resolve active).lookup address data = .error .noMethod ↔
      (resolve active).Lists address ∧ (data.length < selectorSize ∨
        ∀ method, Enabled active address method →
          data.take selectorSize ≠ selector method.signature)) ∧
    (∀ method, (resolve active).lookup address data = .ok method ↔
      Enabled active address method ∧ data.take selectorSize = selector method.signature) ∧
    (∀ later, (∀ spork, active.contains spork = true → later.contains spork = true) →
      ∀ method, (resolve active).lookup address data = .ok method →
        (resolve later).lookup address data = .ok method) ∧
    ∀ other call, other.contains .accelerator = active.contains .accelerator →
      other.contains .dynamicPlasma = active.contains .dynamicPlasma →
      call.take selectorSize = data.take selectorSize →
      (resolve other).lookup address call = (resolve active).lookup address data := by
  refine ⟨overlaid_eq_resolve active, ?_, ?_, ?_, ?_, ?_, ?_⟩
  · rw [lookup_eq_iff]
    exact ⟨fun | .user h => h, .user⟩
  · rw [lookup_eq_iff]
    exact ⟨fun | .absent hcontract habsent => ⟨hcontract, habsent⟩, fun h => .absent h.1 h.2⟩
  · rw [lookup_eq_iff]
    refine Iff.trans ?_ (and_congr_right fun _ => short_or_ne_iff.symm)
    exact ⟨fun | .unnamed hlisted hnone => ⟨hlisted, hnone⟩, fun h => .unnamed h.1 h.2⟩
  · intro method
    rw [lookup_eq_iff]
    exact ⟨fun | .found henabled hselector => ⟨henabled, hselector⟩, fun h => .found h.1 h.2⟩
  · intro later hlater method hfound
    cases lookup_eq_iff.mp hfound with
    | found henabled hselector =>
        exact lookup_eq_iff.mpr (.found (henabled.mono hlater) hselector)
  · intro other call haccelerator hdynamic hcall
    rw [resolve_congr haccelerator hdynamic]
    exact lookup_eq_iff.mpr ((lookup_eq_iff.mp rfl).of_take hcall)

/-- A call of a method from before the sporks, and the same call once all sporks are active. -/
theorem dispatch_by_selector_upgrade :
    (∀ spork, Spork.Active.none.contains spork = true →
        (Spork.Active.ofList Spork.all).contains spork = true) ∧
      (resolve .none).lookup .plasmaContract (Method.fuse.selector ++ [0]) = .ok .fuse ∧
      (resolve (.ofList Spork.all)).lookup .plasmaContract (Method.fuse.selector ++ [0]) =
        .ok .fuse := by
  have hlater : ∀ spork, Spork.Active.none.contains spork = true →
      (Spork.Active.ofList Spork.all).contains spork = true := by
    intro spork _
    cases spork <;> decide
  have hselector : (Method.fuse.selector ++ [0]).take selectorSize = Method.fuse.selector :=
    List.take_left' (Method.length_selector .fuse)
  obtain ⟨_, _, _, _, hfinds, hgrows, _⟩ :=
    dispatch_by_selector .none .plasmaContract (Method.fuse.selector ++ [0])
  have hfound := (hfinds .fuse).mpr ⟨.fuse, hselector⟩
  exact ⟨hlater, hfound, hgrows _ hlater _ hfound⟩

end DispatchTable

end MomentumChain.Contract
