import Mathlib.Data.List.Dedup
import Wcp.Base.JsonSets
import Wcp.Base.JsonShapes
import Wcp.Coordinator.LocalEnvironment
import Wcp.Federation.TrustAnchor
/-!
# Serialised trust anchors

`to_dict` strips the padding of the key's base64 text and `from_dict` decodes the text
without restoring it, so an anchor survives exactly if its key leaves no byte over
(`survives_iff`).  No key of 32 bytes does.
-/

namespace Wcp.Federation

open Wcp.Base
open Wcp.Coordinator

def supportedTrustClasses : List String :=
  ["audit_chain_export", "capability_discovery", "reputation_query"]

/-- `float` on integers and texts. -/
structure FloatReader where
  ofInt : Int → Except FErr PyFloat
  ofText : String → Except FErr PyFloat

/-- `float(v)`. -/
def FloatReader.float (reader : FloatReader) : Json → Except FErr PyFloat
  | .float f => .ok f
  | .int i => reader.ofInt i
  | .bool b => reader.ofInt (if b then 1 else 0)
  | .str s => reader.ofText s
  | _ => .error .typeError

/-- What an anchor holds when it is made of a dictionary: the dataclass checks no types. -/
structure RawAnchor where
  peerCoordinatorDid : Json
  peerPublicKey : List UInt8
  peerEndpointUrl : Json
  scope : List String
  scope_nodup : scope.Nodup
  establishedAt : PyFloat
  expiresAt : PyFloat
  signature : Json

/-- `base64.urlsafe_b64decode(v)`. -/
def decodeKey : Json → Except FErr (List UInt8)
  | .str s =>
      match urlsafeB64decode s.toList with
      | .ok bytes => .ok bytes
      | .error message => .error (.valueError message)
  | _ => .error .typeError

/-- The texts among some values. -/
def texts (xs : List Json) : List String :=
  xs.filterMap fun x => match x with | .str s => some s | _ => none

namespace TrustAnchor

variable (env : Env) (reader : FloatReader)

/-- The check that every class of a scope is supported. -/
def checkScope (scope : List Json) : Except FErr (List Json) :=
  let bad := Json.difference scope (supportedTrustClasses.map .str)
  if bad = [] then .ok scope
  else do
    let sorted ← Json.sorted bad
    throw (.valueError ("unknown trust classes in scope: " ++ env.repr (.arr sorted) ++
      "; supported: " ++ env.repr (.arr (supportedTrustClasses.map .str))))

/-- `frozenset(d["scope"])`, checked. -/
def scopeOf (d : List (String × Json)) : Except FErr (List Json) := do
  let scope ← (Json.obj d).item "scope"
  checkScope env (← scope.toSet)

def fromDict (d : List (String × Json)) : Except FErr RawAnchor := do
  let scope ← scopeOf env d
  let peerCoordinatorDid ← (Json.obj d).item "peer_coordinator_did"
  let peerPublicKey ← decodeKey (← (Json.obj d).item "peer_public_key_b64")
  let peerEndpointUrl ← (Json.obj d).item "peer_endpoint_url"
  let establishedAt ← reader.float (← (Json.obj d).item "established_at")
  let expiresAt ← reader.float (← (Json.obj d).item "expires_at")
  let signature ← (Json.obj d).item "signature"
  return {
    peerCoordinatorDid, peerPublicKey, peerEndpointUrl, establishedAt, expiresAt, signature
    scope := (texts scope).dedup
    scope_nodup := List.nodup_dedup _ }

/-- `sorted(self.scope)`. -/
def sortedScope (a : TrustAnchor) : List String := a.scope.insertionSort (· ≤ ·)

def toDict (a : TrustAnchor) : List (String × Json) := [
  ("peer_coordinator_did", .str a.peerCoordinatorDid),
  ("peer_public_key_b64", .str (String.ofList
    ((urlsafeB64encode a.peerPublicKey).reverse.dropWhile (· = '=')).reverse)),
  ("peer_endpoint_url", .str a.peerEndpointUrl),
  ("scope", .arr (a.sortedScope.map .str)),
  ("established_at", .float a.establishedAt),
  ("expires_at", .float a.expiresAt),
  ("signature", .str a.signature)]

/-- An anchor as `from_dict` would hold it. -/
def raw (a : TrustAnchor) : RawAnchor :=
  { a with
    peerCoordinatorDid := .str a.peerCoordinatorDid
    peerEndpointUrl := .str a.peerEndpointUrl
    signature := .str a.signature }

/-- `a == b`: the scopes are sets, and a time that is not a number equals nothing. -/
structure Equal (a b : TrustAnchor) : Prop where
  peerCoordinatorDid : a.peerCoordinatorDid = b.peerCoordinatorDid
  peerPublicKey : a.peerPublicKey = b.peerPublicKey
  peerEndpointUrl : a.peerEndpointUrl = b.peerEndpointUrl
  scope : a.scope.Perm b.scope
  establishedAt : Json.numericEq a.establishedAt.value b.establishedAt.value = true
  expiresAt : Json.numericEq a.expiresAt.value b.expiresAt.value = true
  signature : a.signature = b.signature

/-- An anchor comes back from its dictionary as an equal one, which verifies if it did. -/
def Survives (a : TrustAnchor) : Prop :=
  ∃ b : TrustAnchor, fromDict env reader a.toDict = .ok b.raw ∧ b.Equal a ∧
    b.verifySignature env = a.verifySignature env

/-- A dictionary whose scope names a class that is not supported. -/
def NamesUnsupported (d : List (String × Json)) : Prop :=
  ∃ scope, d.lookup "scope" = some scope ∧
    ∃ x ∈ scope.elements, ∀ c ∈ supportedTrustClasses, x ≠ .str c

variable {env reader} {a : TrustAnchor}

/-! ## The scope -/

theorem foldl_insertNew_texts {acc xs : List String} (h : (acc ++ xs).Nodup) :
    (xs.map Json.str).foldl Json.insertNew (acc.map Json.str) = (acc ++ xs).map Json.str := by
  induction xs generalizing acc with
  | nil => rw [List.append_nil, List.map_nil, List.foldl_nil]
  | cons x xs ih =>
      have hnew : (acc.map Json.str).any (·.pyEq (.str x)) = false := by
        rw [List.any_eq_false]
        intro y hy heq
        obtain ⟨s, hs, rfl⟩ := List.mem_map.1 hy
        have hsx : x = s := by simpa [Json.pyEq] using heq
        have hdisjoint := (List.nodup_append.1 h).2.2 s hs x List.mem_cons_self
        exact hdisjoint hsx.symm
      have hinsert : Json.insertNew (acc.map Json.str) (.str x) = (acc ++ [x]).map Json.str := by
        rw [Json.insertNew, hnew, List.map_append, List.map_singleton]
        rfl
      have hsplit : acc ++ x :: xs = (acc ++ [x]) ++ xs := by rw [List.append_assoc]; rfl
      rw [List.map_cons, List.foldl_cons, hinsert, ih (hsplit ▸ h), ← hsplit]

theorem sortedScope_perm (a : TrustAnchor) : a.sortedScope.Perm a.scope :=
  List.perm_insertionSort _ _

theorem sortedScope_nodup (a : TrustAnchor) : a.sortedScope.Nodup :=
  (sortedScope_perm a).nodup_iff.2 a.scope_nodup

theorem texts_map_str (xs : List String) : texts (xs.map Json.str) = xs := by
  rw [texts, List.filterMap_map]
  exact List.filterMap_some

theorem scopeOf_toDict (hscope : ∀ c ∈ a.scope, c ∈ supportedTrustClasses) :
    scopeOf env a.toDict = .ok (a.sortedScope.map Json.str) := by
  have hitem : (Json.obj a.toDict).item "scope" =
      (.ok (.arr (a.sortedScope.map .str)) : Except FErr Json) := rfl
  have hset : (Json.arr (a.sortedScope.map .str)).toSet =
      (.ok (a.sortedScope.map .str) : Except FErr (List Json)) := by
    have hhash : (a.sortedScope.map Json.str).all Json.hashable = true := by
      rw [List.all_map, List.all_eq_true]
      exact fun _ _ => rfl
    have hfold := @foldl_insertNew_texts [] a.sortedScope (sortedScope_nodup a)
    rw [List.map_nil, List.nil_append] at hfold
    rw [Json.toSet_arr, if_pos hhash, hfold]
  have hbad : Json.difference (a.sortedScope.map .str) (supportedTrustClasses.map .str) = [] := by
    rw [Json.difference, List.filter_eq_nil_iff]
    intro x hx
    obtain ⟨c, hc, rfl⟩ := List.mem_map.1 hx
    have hc := hscope c ((sortedScope_perm a).mem_iff.1 hc)
    simpa [Json.pyEq] using hc
  refine bind_eq_ok.2 ⟨_, hitem, bind_eq_ok.2 ⟨_, hset, ?_⟩⟩
  rw [checkScope]
  exact if_pos hbad

theorem checkScope_error {scope : List Json} {x : Json} (hx : x ∈ scope)
    (h : ∀ c ∈ supportedTrustClasses, x ≠ .str c) : ∃ e, checkScope env scope = .error e := by
  have hbad : Json.difference scope (supportedTrustClasses.map .str) ≠ [] := by
    refine List.ne_nil_of_mem (List.mem_filter.2 ⟨hx, ?_⟩)
    rw [Bool.not_eq_true', List.any_eq_false]
    intro z hz heq
    obtain ⟨c, hc, rfl⟩ := List.mem_map.1 hz
    exact h c hc (by simpa [Json.pyEq] using heq)
  rw [checkScope, if_neg hbad]
  cases (Json.sorted (Json.difference scope (supportedTrustClasses.map .str)) :
      Except FErr (List Json)) with
  | error e => exact ⟨e, rfl⟩
  | ok sorted => exact ⟨_, rfl⟩

/-- A scope with an unsupported class is refused, whatever else it holds. -/
theorem scopeOf_unsupported {d : List (String × Json)} (h : NamesUnsupported d) :
    ∃ e, scopeOf env d = .error e := by
  obtain ⟨scope, hlookup, x, hx, hunsupported⟩ := h
  -- the set keeps the class, or an equal value, which is the class
  have hkept : ∃ y ∈ scope.asSet, ∀ c ∈ supportedTrustClasses, y ≠ .str c := by
    rcases Json.mem_or_any_foldl_insertNew hx [] with hmem | hany
    · exact ⟨x, hmem, hunsupported⟩
    · obtain ⟨y, hy, heq⟩ := List.any_eq_true.1 hany
      refine ⟨y, hy, ?_⟩
      rintro c hc rfl
      exact hunsupported c hc (by simpa [Json.pyEq] using heq)
  obtain ⟨y, hy, hne⟩ := hkept
  obtain ⟨e, he⟩ := @checkScope_error env _ _ hy hne
  have hitem : (Json.obj d).item "scope" = (.ok scope : Except FErr Json) := by
    rw [Json.item, hlookup]
  rw [scopeOf, hitem]
  show ∃ e, (scope.toSet >>= fun scope => checkScope env scope) = .error e
  rw [Json.toSet_eq]
  split
  · exact ⟨e, he⟩
  · exact ⟨_, rfl⟩

/-! ## The key -/

theorem decodeKey_toDict (a : TrustAnchor) :
    decodeKey (.str (String.ofList
      ((urlsafeB64encode a.peerPublicKey).reverse.dropWhile (· = '=')).reverse)) =
      if a.peerPublicKey.length % 3 = 0 then .ok a.peerPublicKey
      else .error (.valueError "Incorrect padding") := by
  rw [decodeKey, String.toList_ofList, strip_urlsafeB64encode, urlsafeB64decode_unpadded]
  by_cases hlength : a.peerPublicKey.length % 3 = 0
  · simp only [if_pos hlength]
  · simp only [if_neg hlength]

/-- An anchor with the scope in the order that `sorted` gives it. -/
def withSortedScope (a : TrustAnchor) : TrustAnchor :=
  { a with scope := a.sortedScope, scope_nodup := sortedScope_nodup a }

theorem fromDict_toDict (hscope : ∀ c ∈ a.scope, c ∈ supportedTrustClasses) :
    fromDict env reader a.toDict =
      if a.peerPublicKey.length % 3 = 0 then .ok a.withSortedScope.raw
      else .error (.valueError "Incorrect padding") := by
  have hkey := decodeKey_toDict a
  by_cases hlength : a.peerPublicKey.length % 3 = 0
  · rw [if_pos hlength] at hkey ⊢
    refine bind_eq_ok.2 ⟨_, scopeOf_toDict hscope, bind_eq_ok.2 ⟨_, rfl, bind_eq_ok.2 ⟨_, rfl,
      bind_eq_ok.2 ⟨_, hkey, bind_eq_ok.2 ⟨_, rfl, bind_eq_ok.2 ⟨_, rfl, bind_eq_ok.2 ⟨_, rfl,
      bind_eq_ok.2 ⟨_, rfl, bind_eq_ok.2 ⟨_, rfl, bind_eq_ok.2 ⟨_, rfl, ?_⟩⟩⟩⟩⟩⟩⟩⟩⟩⟩
    refine congrArg Except.ok ?_
    unfold raw withSortedScope
    dsimp only
    congr 1
    rw [texts_map_str, (sortedScope_nodup a).dedup]
  · rw [if_neg hlength] at hkey ⊢
    rw [fromDict, scopeOf_toDict hscope]
    show (decodeKey (.str (String.ofList
      ((urlsafeB64encode a.peerPublicKey).reverse.dropWhile (· = '=')).reverse)) >>= _) = _
    rw [hkey]
    rfl

/-! ## Which anchors survive -/

theorem length_of_fromDict {r : RawAnchor} (h : fromDict env reader a.toDict = .ok r) :
    a.peerPublicKey.length % 3 = 0 := by
  obtain ⟨_, -, h⟩ := bind_eq_ok.1 h
  obtain ⟨_, -, h⟩ := bind_eq_ok.1 h
  obtain ⟨text, htext, h⟩ := bind_eq_ok.1 h
  obtain ⟨_, hkey, -⟩ := bind_eq_ok.1 h
  obtain rfl : _ = text := Except.ok.inj htext
  by_contra hlength
  rw [decodeKey_toDict, if_neg hlength] at hkey
  cases hkey

theorem signedBody_withSortedScope (a : TrustAnchor) :
    a.withSortedScope.signedBody = a.signedBody := by
  have hsorted : a.sortedScope.insertionSort (· ≤ ·) = a.sortedScope :=
    (List.pairwise_insertionSort (· ≤ ·) a.scope).insertionSort_eq
  unfold signedBody withSortedScope
  dsimp only
  rw [hsorted]
  rfl

theorem numericEq_self {v : FloatValue} {q : Rat} (h : v = .fin q) :
    Json.numericEq v v = true := by
  rw [h, Json.numericEq]
  simp

/-- Exactly the anchors survive whose key leaves no byte over in its base64 text, so none with a
key of 32 bytes does; a scope with an unsupported class is refused. -/
theorem survives_iff (env : Env) (reader : FloatReader) :
    (∀ a : TrustAnchor, a.peerPublicKey.length = 32 → ¬ Survives env reader a) ∧
    (∀ a : TrustAnchor, (∀ c ∈ a.scope, c ∈ supportedTrustClasses) →
      (∃ q, a.establishedAt.value = .fin q) → (∃ q, a.expiresAt.value = .fin q) →
      (Survives env reader a ↔ a.peerPublicKey.length % 3 = 0)) ∧
    (∀ d, NamesUnsupported d → ∃ e, fromDict env reader d = .error e) := by
  refine ⟨?_, ?_, ?_⟩
  · rintro a hlength ⟨b, hb, -⟩
    have hrest := length_of_fromDict hb
    rw [hlength] at hrest
    exact absurd hrest (by decide)
  · rintro a hscope ⟨q, hestablished⟩ ⟨q', hexpires⟩
    constructor
    · rintro ⟨b, hb, -⟩
      exact length_of_fromDict hb
    · intro hlength
      refine ⟨a.withSortedScope, ?_, ?_, ?_⟩
      · rw [fromDict_toDict hscope, if_pos hlength]
      · exact ⟨rfl, rfl, rfl, sortedScope_perm a, numericEq_self hestablished,
          numericEq_self hexpires, rfl⟩
      · rw [verifySignature, signedBody_withSortedScope, verifySignature]
        rfl
  · intro d hd
    obtain ⟨e, he⟩ := @scopeOf_unsupported env d hd
    exact ⟨e, by rw [fromDict, he]; rfl⟩

def anchorOfLength (n : Nat) : TrustAnchor where
  peerCoordinatorDid := "did:wcp:peer"
  peerPublicKey := List.replicate n 7
  peerEndpointUrl := "https://peer.example"
  scope := ["capability_discovery", "audit_chain_export"]
  scope_nodup := by decide
  establishedAt := ⟨"1767225600.0", newYear2026_isText⟩
  expiresAt := ⟨"1769904000.0", by decide⟩
  signature := "ed25519:fake"

/-- A reader that is not asked: the times are floats. -/
def unaskedReader : FloatReader :=
  ⟨fun _ => .error .overflowError, fun _ => .error (.valueError "could not convert")⟩

theorem survives_iff_sample :
    ¬ Survives localEnv unaskedReader (anchorOfLength 32) ∧
    Survives localEnv unaskedReader (anchorOfLength 33) ∧
    ∃ e, fromDict localEnv unaskedReader
      [("scope", .arr [.str "this_class_does_not_exist"])] = .error e := by
  obtain ⟨hnever, hiff, hrefused⟩ := survives_iff localEnv unaskedReader
  refine ⟨hnever _ (by decide), ?_, ?_⟩
  · exact (hiff (anchorOfLength 33) (by decide) ⟨_, rfl⟩ ⟨_, rfl⟩).2 (by decide)
  · exact hrefused _ ⟨_, rfl, .str "this_class_does_not_exist", List.mem_cons_self, by decide⟩

/-- An anchor with a key of 32 bytes raises when it is read back. -/
theorem anchor_not_read_back :
    (anchorOfLength 32).peerPublicKey.length = 32 ∧
    fromDict localEnv unaskedReader (anchorOfLength 32).toDict =
      .error (.valueError "Incorrect padding") := by
  refine ⟨by decide, ?_⟩
  rw [fromDict_toDict (by decide)]
  exact if_neg (by decide)

end TrustAnchor

end Wcp.Federation
