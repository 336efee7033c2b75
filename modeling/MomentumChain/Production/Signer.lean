import MomentumChain.Address
import MomentumChain.Hash

/-!
# Signers

A signer is known by a secret.  Its public key is the digest of the secret, and
its address is the address of the public key.  It signs a hash by the digest of
the secret and the hash.  The description of a signer leaves the secret out.
-/

namespace MomentumChain.Production

/-- The key material of a producer. -/
structure Signer where
  /-- What only the producer knows. -/
  secret : Bytes
deriving DecidableEq

namespace Signer

def publicKey (signer : Signer) : Bytes := (Digest.sha3 signer.secret).toList

/-- The address that belongs to the public key. -/
def address (signer : Signer) : Address := .ofPublicKey signer.publicKey

/-- The signature over a hash. -/
def signature (signer : Signer) (hash : Hash) : Bytes :=
  (Digest.sha3 (signer.secret ++ hash.toBytes)).toList

/-- Address and public key, for logs. -/
def description (signer : Signer) : String :=
  "SignerKey \x7b address: " ++ signer.address.text ++ ", public_key: \"" ++
    Hex.encode signer.publicKey ++ "\", .. \x7d"

end Signer

end MomentumChain.Production
