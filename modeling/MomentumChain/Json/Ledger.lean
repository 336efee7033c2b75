import MomentumChain.Json.Record
import MomentumChain.Momentum
import MomentumChain.Plasma.Usage

/-!
# Forms of blocks and momentums

The content of a momentum is held by the list of its headers.
-/

namespace MomentumChain.Json.Form

/-! ## Blocks -/

/-- Kinds of blocks. -/
def blockKind : Form Block.Kind := choice Block.Kind.name Block.Kind.ofName?

/-- Blocks. -/
def block : Form Block :=
  record
    (.cons "block_type" blockKind <| .cons "hash" hash <| .cons "previous_hash" hash <|
      .cons "height" word <| .cons "address" address <| .cons "to_address" address <|
      .cons "amount" amount <| .cons "token_standard" token <| .cons "from_block_hash" hash <|
      .cons "data" bytes <| .cons "fused_plasma" word <| .cons "difficulty" word <|
      .cons "nonce" (vector 8) <| .cons "base_plasma" word .nil)
    (fun b =>
      (b.kind, b.hash, b.previousHash, b.height, b.address, b.recipient, b.amount, b.token,
        b.fromHash, b.data, b.fusedPlasma, b.difficulty, b.nonce, b.basePlasma, ()))
    (fun (kind, hash, previousHash, height, address, recipient, amount, token, fromHash, data,
        fusedPlasma, difficulty, nonce, basePlasma, ()) =>
      ⟨kind, hash, previousHash, height, address, recipient, amount, token, fromHash, data,
        fusedPlasma, difficulty, nonce, basePlasma⟩)

/-- Headers of blocks. -/
def header : Form Header :=
  record (.cons "address" address <| .cons "height" word <| .cons "hash" hash .nil)
    (fun h => (h.address, h.height, h.hash, ()))
    (fun (address, height, hash, ()) => ⟨address, height, hash⟩)

/-- Plasma by resource. -/
def usage : Form Plasma.Usage :=
  record (.cons "fusion" word <| .cons "pow" word .nil)
    (fun u => (u.fusion, u.work, ()))
    (fun (fusion, work, ()) => ⟨fusion, work⟩)

/-! ## Momentums -/

/-- Momentums. -/
def momentum : Form Momentum :=
  record
    (.cons "chain_identifier" word <| .cons "version" word <| .cons "hash" hash <|
      .cons "previous_hash" hash <| .cons "height" word <| .cons "timestamp" word <|
      .cons "content" (list header) <| .cons "next_fusion_price" word <|
      .cons "next_work_price" word .nil)
    (fun m =>
      (m.chainId, m.version, m.hash, m.previousHash, m.height, m.timestamp, m.content,
        m.nextFusionPrice, m.nextWorkPrice, ()))
    (fun (chainId, version, hash, previousHash, height, timestamp, content, nextFusionPrice,
        nextWorkPrice, ()) =>
      ⟨chainId, version, hash, previousHash, height, timestamp, content, nextFusionPrice,
        nextWorkPrice⟩)

/-- Momentums with their blocks. -/
def detailed : Form Momentum.Detailed :=
  record (.cons "momentum" momentum <| .cons "account_blocks" (list block) .nil)
    (fun d => (d.momentum, d.blocks, ()))
    (fun (momentum, blocks, ()) => ⟨momentum, blocks⟩)

/-- Signed momentums. -/
def signed : Form Momentum.Signed :=
  record
    (.cons "detailed" detailed <| .cons "producer" address <| .cons "public_key" bytes <|
      .cons "signature" bytes .nil)
    (fun s => (s.detailed, s.producer, s.publicKey, s.signature, ()))
    (fun (detailed, producer, publicKey, signature, ()) =>
      ⟨detailed, producer, publicKey, signature⟩)

end MomentumChain.Json.Form
