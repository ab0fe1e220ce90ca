import Mathlib.Data.Nat.Digits.Defs
import Wcp.Base.Base64
import Wcp.Coordinator.Environment
/-!
# The inline `did:wcp` resolver

An identifier is the base58 text of the controlling Ed25519 key, so resolving it
reads the key off the identifier.  `verify` raises on a signature that does not
verify and returns nothing otherwise.
-/

namespace Wcp.Coordinator

open Wcp.Base

/-- The base58btc alphabet. -/
def b58 : List Char := "123456789ABCDEFGHJKLMNPQRSTUVWXYZabcdefghijkmnopqrstuvwxyz".toList

/-- The number a base58 text stands for, or its first character outside the alphabet. -/
def b58value : Nat → List Char → Except Char Nat
  | n, [] => .ok n
  | n, c :: cs => if c ∈ b58 then b58value (n * 58 + b58.idxOf c) cs else .error c

/-- `n.to_bytes((n.bit_length() + 7) // 8, "big")`. -/
def toBytes (n : Nat) : List UInt8 := ((Nat.digits 256 n).map UInt8.ofNat).reverse

def b58decode (s : List Char) : Except Char (List UInt8) :=
  match b58value 0 s with
  | .error c => .error c
  | .ok n => .ok (List.replicate (s.takeWhile (· = '1')).length 0 ++ toBytes n)

/-- `int.from_bytes(b, "big")`. -/
def fromBytes (b : List UInt8) : Nat := b.foldl (fun n x => n * 256 + x.toNat) 0

/-- The loop of `_b58encode`: the remaining number and the text so far. -/
def b58digits (n : Nat) (out : List Char) : List Char :=
  if n = 0 then out else b58digits (n / 58) (b58.getD (n % 58) '1' :: out)
termination_by n
decreasing_by omega

def b58encode (b : List UInt8) : List Char :=
  List.replicate (b.takeWhile (· = 0)).length '1' ++ b58digits (fromBytes b) []

/-- `s.split(":", maxsplit)`. -/
def splitColon : Nat → List Char → List (List Char)
  | 0, cs => [cs]
  | n + 1, cs =>
      match cs.dropWhile (· ≠ ':') with
      | [] => [cs]
      | _ :: rest => cs.takeWhile (· ≠ ':') :: splitColon n rest

structure ResolvedDID where
  did : String
  publicKey : List UInt8
  path : Option String
deriving DecidableEq

variable (env : Env)

def resolve (did : Json) : Except Err ResolvedDID := do
  let s ← did.asStr
  let fail (message : String) : Except Err ResolvedDID := throw (.raised (.didResolution message))
  if "did:".toList.isPrefixOf s.toList = false then
    fail ("not a DID: " ++ env.repr did)
  else
    match splitColon 3 s.toList with
    | _ :: method :: identifier :: rest =>
        if method ≠ "wcp".toList then fail ("not a did:wcp: " ++ env.repr did)
        else
          match b58decode identifier with
          | .error c =>
              fail ("invalid identifier: invalid base58 character: " ++
                env.repr (.str (String.singleton c)))
          | .ok key =>
              if key.length ≠ 32 then
                fail ("did:wcp identifier must decode to 32-byte Ed25519 pubkey, got " ++
                  Nat.repr key.length ++ " bytes")
              else return ⟨s, key, rest.head?.map String.ofList⟩
    | _ => fail ("not a did:wcp: " ++ env.repr did)

def verify (resolved : ResolvedDID) (payload : String) (signature : Json) :
    Except Err Unit := do
  let s ← signature.asStr
  let fail (message : String) : Except Err Unit :=
    throw (.raised (.signatureVerification message))
  if "ed25519:".toList.isPrefixOf s.toList = false then
    fail ("unsupported signature scheme: " ++ env.repr (.str (String.ofList (s.toList.take 10))))
  else
    match urlsafeB64decode (s.toList.drop 8 ++ ['=', '=']) with
    | .error message => fail ("invalid base64 signature: " ++ message)
    | .ok sig =>
        if env.ed25519Verify resolved.publicKey sig payload then return ()
        else fail "Ed25519 verify failed"

def didFromPubkey (pubkey : List UInt8) : Except Err String :=
  if pubkey.length ≠ 32 then throw (.valueError "Ed25519 public key must be 32 bytes")
  else return "did:wcp:" ++ String.ofList (b58encode pubkey)

end Wcp.Coordinator
