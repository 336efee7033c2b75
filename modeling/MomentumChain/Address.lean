import MomentumChain.Identifier
import MomentumChain.Digest.Keccak

/-!
# Addresses

An address has 20 bytes.  The first byte tells its kind.  A user address holds
the first 19 bytes of the digest of a public key.  A contract address holds the
number of the contract in its last byte.

Addresses are ordered as byte strings.  `Address.Set` is a set of addresses
kept in that order.
-/

namespace MomentumChain

/-- The owner of an account. -/
structure Address where
  /-- The bytes, first byte first. -/
  bytes : Vector UInt8 20
deriving DecidableEq

namespace Address

/-- The address of zero bytes. -/
def zero : Address := ⟨Vector.replicate 20 0⟩

instance : Inhabited Address := ⟨zero⟩

def toBytes (address : Address) : Bytes := address.bytes.toList

@[simp] theorem length_toBytes (address : Address) : address.toBytes.length = 20 := by
  simp [toBytes]

/-- Addresses are told apart by their bytes. -/
theorem toBytes_inj {a b : Address} : a.toBytes = b.toBytes ↔ a = b := by
  cases a; cases b; simp [toBytes, Vector.toList_inj]

/-- Addresses are ordered as byte strings. -/
instance : LT Address := ⟨fun a b => a.toBytes < b.toBytes⟩

instance (a b : Address) : Decidable (a < b) :=
  inferInstanceAs (Decidable (a.toBytes < b.toBytes))

/-! ## Kinds -/

/-- First byte of a user address. -/
def userKind : UInt8 := 0

/-- First byte of a contract address. -/
def contractKind : UInt8 := 1

/-- The address belongs to an embedded contract. -/
def isContract (address : Address) : Bool := address.bytes.get 0 = contractKind

/-- The address of the embedded contract with the given number. -/
def contract (number : UInt8) : Address :=
  ⟨Vector.ofFn fun i => if i.val = 0 then contractKind else if i.val = 19 then number else 0⟩

/-- The user address of a public key. -/
def ofPublicKey (key : Bytes) : Address :=
  let digest := Digest.sha3 key
  ⟨Vector.ofFn fun i => if i.val = 0 then userKind else digest.get ⟨i.val - 1, by omega⟩⟩

/-! ## Embedded contracts -/

/-- Fusion of coins for plasma. -/
def plasmaContract : Address := contract 1
def pillarContract : Address := contract 2
def tokenContract : Address := contract 3
def sentinelContract : Address := contract 4
def swapContract : Address := contract 5
def stakeContract : Address := contract 6
/-- Activation of upgrades. -/
def sporkContract : Address := contract 7
/-- Funding of projects. -/
def acceleratorContract : Address := contract 8
def liquidityContract : Address := contract 9
def htlcContract : Address := contract 10
def bridgeContract : Address := contract 11

/-- The embedded contracts in order of their numbers. -/
def contracts : List Address :=
  [plasmaContract, pillarContract, tokenContract, sentinelContract, swapContract, stakeContract,
   sporkContract, acceleratorContract, liquidityContract, htlcContract, bridgeContract]

/-! ## Text -/

/-- The written form of an address. -/
def text (address : Address) : String := Identifier.write "0x" address.bytes

/-- Reads an address from its text. -/
def read (text : String) : Except Identifier.Error Address :=
  Address.mk <$> Identifier.read "0x" 20 text

/-! ## Sets of addresses -/

theorem lt_trans {a b c : Address} (hab : a < b) (hbc : b < c) : a < c :=
  List.lt_trans hab hbc

theorem lt_of_not_lt_of_ne {a b : Address} (h : ¬ a < b) (hne : a ≠ b) : b < a := by
  have hle : b.toBytes ≤ a.toBytes := List.not_lt.mp h
  cases List.le_iff_lt_or_eq.mp hle with
  | inl hlt => exact hlt
  | inr heq => exact absurd (toBytes_inj.mp heq).symm hne

/-- A set of addresses as a strictly ascending list. -/
structure Set where
  toList : List Address
  ascending : toList.Pairwise (· < ·)

namespace Set

def empty : Set := ⟨[], .nil⟩

instance : Inhabited Set := ⟨empty⟩

/-- The list with an address put in its place, unless it is there already. -/
def insertInto (address : Address) : List Address → List Address
  | [] => [address]
  | head :: tail =>
      if address < head then address :: head :: tail
      else if address = head then head :: tail
      else head :: insertInto address tail

theorem mem_insertInto {a address : Address} :
    ∀ {members : List Address}, a ∈ insertInto address members ↔ a = address ∨ a ∈ members
  | [] => by simp [insertInto]
  | head :: tail => by
      have ih := @mem_insertInto a address tail
      rw [insertInto]
      split
      · simp
      · split
        · rename_i h
          subst h
          simp
        · simp only [List.mem_cons, ih]
          constructor
          · rintro (h | h | h)
            · exact .inr (.inl h)
            · exact .inl h
            · exact .inr (.inr h)
          · rintro (h | h | h)
            · exact .inr (.inl h)
            · exact .inl h
            · exact .inr (.inr h)

theorem ascending_insertInto (address : Address) :
    ∀ {members : List Address}, members.Pairwise (· < ·) →
      (insertInto address members).Pairwise (· < ·)
  | [], _ => by simp [insertInto]
  | head :: tail, h => by
      obtain ⟨hhead, htail⟩ := List.pairwise_cons.mp h
      rw [insertInto]
      split
      · rename_i hlt
        refine List.pairwise_cons.mpr ⟨fun a ha => ?_, h⟩
        cases List.mem_cons.mp ha with
        | inl he => exact he ▸ hlt
        | inr hm => exact lt_trans hlt (hhead a hm)
      · split
        · exact h
        · rename_i hnot hne
          refine List.pairwise_cons.mpr ⟨fun a ha => ?_, ascending_insertInto address htail⟩
          cases mem_insertInto.mp ha with
          | inl he => exact he ▸ lt_of_not_lt_of_ne hnot hne
          | inr hm => exact hhead a hm

def insert (address : Address) (set : Set) : Set :=
  ⟨insertInto address set.toList, ascending_insertInto address set.ascending⟩

def ofList (addresses : List Address) : Set :=
  addresses.foldl (fun set address => set.insert address) empty

def contains (set : Set) (address : Address) : Bool := set.toList.contains address

theorem insertInto_of_lt {address : Address} {members : List Address}
    (h : ∀ a ∈ members, a < address) : insertInto address members = members ++ [address] := by
  induction members with
  | nil => rfl
  | cons head tail ih =>
      rw [List.forall_mem_cons] at h
      have hnot : ¬ address < head := fun hlt => List.lt_irrefl _ (lt_trans hlt h.1)
      have hne : address ≠ head := by
        rintro rfl
        exact List.lt_irrefl _ h.1
      rw [insertInto, if_neg hnot, if_neg hne, ih h.2]
      rfl

/-- Ascending addresses are put behind a set one by one. -/
theorem toList_foldl_insert {set : Set} {more : List Address}
    (h : (set.toList ++ more).Pairwise (· < ·)) :
    (more.foldl (fun set address => set.insert address) set).toList = set.toList ++ more := by
  induction more generalizing set with
  | nil => exact (List.append_nil _).symm
  | cons address more ih =>
      have hlast : ∀ a ∈ set.toList, a < address := fun a ha =>
        (List.pairwise_append.mp h).2.2 a ha address List.mem_cons_self
      have hinsert : (set.insert address).toList = set.toList ++ [address] :=
        insertInto_of_lt hlast
      rw [List.append_cons, ← hinsert] at h ⊢
      exact ih h

/-- A set is the set of its listed members. -/
theorem ofList_toList (set : Set) : ofList set.toList = set := by
  have h : (ofList set.toList).toList = set.toList := toList_foldl_insert set.ascending
  cases set
  generalize ofList _ = other at h
  cases other
  cases h
  rfl

end Set

end Address

end MomentumChain
