import Wcp.Base.JsonSets
import Wcp.Coordinator.Admission
import Wcp.Coordinator.LocalEnvironment
import Wcp.Coordinator.Operands
/-!
# Matching is conjunctive

On descriptors and queries that can be read, the matcher keeps the workers that offer
everything a query asks for (`matchingWorkers_wellShaped`).  Asking for the union of two
queries therefore finds exactly the workers that both find (`matching_conjunctive`).
-/

namespace Wcp.Base.Json

/-- Everything that is asked for is among what is offered. -/
def amongOffered (asked offers : List Json) : Bool := asked.all fun x => offers.any (·.pyEq x)

theorem any_pyEq_of_pyEq {offers : List Json} {x y : Json}
    (hoffers : ∀ z ∈ offers, z.hashable = true) (hy : y.hashable = true)
    (hequal : y.pyEq x = true) : offers.any (·.pyEq y) = offers.any (·.pyEq x) := by
  obtain ⟨k, hyk, hxk⟩ := (pyEq_iff_hashKey hy x).1 hequal
  rw [Bool.eq_iff_iff, any_pyEq_iff hoffers, any_pyEq_iff hoffers, hyk, hxk]

/-- A set is contained in another exactly if all it was made from is. -/
theorem subset_asSet {v : Json} {offers : List Json} (hv : v.settable = true)
    (hoffers : ∀ z ∈ offers, z.hashable = true) :
    subset v.asSet offers = amongOffered v.elements offers := by
  have hhash : ∀ y ∈ v.elements, y.hashable = true :=
    List.all_eq_true.1 (Bool.and_eq_true_iff.1 hv).2
  have hkept : ∀ y ∈ v.asSet, y ∈ v.elements := by
    intro y hy
    exact (mem_of_mem_foldl_insertNew hy).resolve_left List.not_mem_nil
  rw [Bool.eq_iff_iff, subset, amongOffered, List.all_eq_true, List.all_eq_true]
  constructor
  · intro hall x hx
    rcases mem_or_any_foldl_insertNew hx [] with hmem | hequal
    · exact hall x hmem
    · -- an equal element stands for the one that was left out
      obtain ⟨y, hy, hyx⟩ := List.any_eq_true.1 hequal
      rw [← any_pyEq_of_pyEq hoffers (hhash y (hkept y hy)) hyx]
      exact hall y hy
  · intro hall y hy
    exact hall y (hkept y hy)

theorem subset_asSet_asSet {v w : Json} (hv : v.settable = true) (hw : w.settable = true) :
    subset v.asSet w.asSet = amongOffered v.elements w.elements := by
  have hhash : ∀ z ∈ w.elements, z.hashable = true :=
    List.all_eq_true.1 (Bool.and_eq_true_iff.1 hw).2
  have hany : ∀ x, w.asSet.any (·.pyEq x) = w.elements.any (·.pyEq x) := any_foldl_insertNew hhash
  rw [← subset_asSet hv hhash, subset, subset]
  simp only [hany]

theorem amongOffered_append (xs ys offers : List Json) :
    amongOffered (xs ++ ys) offers = (amongOffered xs offers && amongOffered ys offers) :=
  List.all_append

end Wcp.Base.Json

namespace Wcp.Coordinator

open Wcp.Base

/-! ## What a worker offers -/

def requiredBlock (capabilities : Json) : Json :=
  ((capabilities.or (.obj [])).member "required").or (.obj [])

/-- What the block lists under a key; nothing where it has no list. -/
def offered (capabilities : Json) (key : String) : Json :=
  ((requiredBlock capabilities).memberD key (.arr [])).or (.arr [])

/-- The ids of the certifications that a worker holds. -/
def heldIds (capabilities : Json) : List Json :=
  (offered capabilities "certifications").elements.map fun c => (c.or (.obj [])).member "id"

def location (capabilities : Json) : Json :=
  ((requiredBlock capabilities).member "current_location").or (.obj [])

/-- A descriptor that can be read: its lists hold texts or other hashable values, and its
certifications are objects with such ids.  Each of them may be absent or null. -/
structure WellShaped (capabilities : Json) : Prop where
  object : (capabilities.or (.obj [])).isObject = true
  required : (requiredBlock capabilities).isObject = true
  methods : (offered capabilities "attestation_methods_supported").settable = true
  descriptors : (offered capabilities "descriptor_types_supported").settable = true
  certifications :
    CertificationOperands ((requiredBlock capabilities).memberD "certifications" (.arr []))
  location : (location capabilities).isObject = true

/-! ## What a query asks for -/

/-- What a query lists under a key; nothing where it has no list. -/
def queried (query : Json) (key : String) : Json := (query.memberD key (.arr [])).or (.arr [])

/-- A query that can be read. -/
structure WellShapedQuery (query : Json) : Prop where
  object : query.isObject = true
  methods : (queried query "attestation_methods").settable = true
  descriptors : (queried query "descriptor_types").settable = true
  certifications : (queried query "certifications").settable = true

/-- The worker offers everything that the query asks for.  One that declares no descriptor
types takes all. -/
def satisfies (query capabilities : Json) : Bool :=
  Json.amongOffered (queried query "attestation_methods").elements
      (offered capabilities "attestation_methods_supported").elements &&
    (!(requiredBlock capabilities).has "descriptor_types_supported" ||
      Json.amongOffered (queried query "descriptor_types").elements
        (offered capabilities "descriptor_types_supported").elements) &&
    Json.amongOffered (queried query "certifications").elements (heldIds capabilities) &&
    (decide (query.member "location_venue_id" = .null) ||
      ((location capabilities).member "venue_id").pyEq (query.member "location_venue_id"))

/-! ## The tests of the matcher -/

variable {query capabilities : Json}

theorem methodsMatch_eq (hquery : WellShapedQuery query) (h : WellShaped capabilities) :
    methodsMatch (wantedFor query).methods (requiredBlock capabilities) =
      .ok (Json.amongOffered (queried query "attestation_methods").elements
        (offered capabilities "attestation_methods_supported").elements) := by
  rw [← Json.subset_asSet_asSet hquery.methods h.methods, methodsMatch]
  by_cases hwanted : (wantedFor query).methods = []
  · rw [if_pos hwanted]
    exact congrArg (fun wanted => Except.ok (Json.subset wanted _)) hwanted.symm
  · rw [if_neg hwanted, Json.getD_eq, if_pos h.required]
    show ((offered capabilities "attestation_methods_supported").toSet >>= _) = _
    rw [Json.toSet_eq, if_pos h.methods]
    rfl

theorem descriptorsMatch_eq (hquery : WellShapedQuery query) (h : WellShaped capabilities) :
    descriptorsMatch (wantedFor query).descriptors (requiredBlock capabilities) =
      .ok (!(requiredBlock capabilities).has "descriptor_types_supported" ||
        Json.amongOffered (queried query "descriptor_types").elements
          (offered capabilities "descriptor_types_supported").elements) := by
  rw [← Json.subset_asSet_asSet hquery.descriptors h.descriptors, descriptorsMatch]
  by_cases hwanted : (wantedFor query).descriptors = []
  · have hall : Json.subset (queried query "descriptor_types").asSet
        (offered capabilities "descriptor_types_supported").asSet = true :=
      (congrArg (fun wanted => Json.subset wanted _) hwanted).trans rfl
    rw [if_pos hwanted, hall, Bool.or_true]
  · have hsearchable : (requiredBlock capabilities).searchable = true := by
      have hobject := h.required
      cases hblock : requiredBlock capabilities with
      | obj ms => rfl
      | _ => simp [hblock, Json.isObject] at hobject
    rw [if_neg hwanted, Json.contains_eq, if_pos hsearchable]
    cases hhas : (requiredBlock capabilities).has "descriptor_types_supported" with
    | false => rfl
    | true =>
        show ((requiredBlock capabilities).getD "descriptor_types_supported" (.arr []) >>= _) = _
        rw [Json.getD_eq, if_pos h.required]
        show ((offered capabilities "descriptor_types_supported").toSet >>= _) = _
        rw [Json.toSet_eq, if_pos h.descriptors]
        rfl

theorem certificationIds_eq (h : WellShaped capabilities) :
    certificationIds ((requiredBlock capabilities).memberD "certifications" (.arr [])) =
      .ok (heldIds capabilities) := by
  obtain ⟨hsearchable, hids⟩ := h.certifications
  rw [certificationIds, Json.iter_eq, if_pos hsearchable]
  refine mapM_of_forall fun c hc => ?_
  obtain ⟨hobject, hhash⟩ := hids c hc
  rw [Json.get_eq, if_pos hobject]
  exact if_pos hhash

theorem heldIds_hashable (h : WellShaped capabilities) :
    ∀ id ∈ heldIds capabilities, id.hashable = true := by
  intro id hid
  obtain ⟨c, hc, rfl⟩ := List.mem_map.1 hid
  exact (h.certifications.2 c hc).2

theorem certificationsMatch_eq (hquery : WellShapedQuery query) (h : WellShaped capabilities) :
    certificationsMatch (wantedFor query).certifications (requiredBlock capabilities) =
      .ok (Json.amongOffered (queried query "certifications").elements (heldIds capabilities)) := by
  rw [← Json.subset_asSet hquery.certifications (heldIds_hashable h), certificationsMatch]
  by_cases hwanted : (wantedFor query).certifications = []
  · rw [if_pos hwanted]
    exact congrArg (fun wanted => Except.ok (Json.subset wanted _)) hwanted.symm
  · rw [if_neg hwanted, Json.getD_eq, if_pos h.required]
    show (certificationIds ((requiredBlock capabilities).memberD "certifications" (.arr [])) >>=
      _) = _
    rw [certificationIds_eq h]
    rfl

theorem venueMatch_eq (query : Json) (h : WellShaped capabilities) :
    venueMatch (query.member "location_venue_id") (requiredBlock capabilities) =
      .ok (decide (query.member "location_venue_id" = .null) ||
        ((location capabilities).member "venue_id").pyEq (query.member "location_venue_id")) := by
  rw [venueMatch]
  by_cases hwanted : query.member "location_venue_id" = .null
  · rw [if_pos hwanted, decide_eq_true hwanted, Bool.true_or]
  · rw [if_neg hwanted, decide_eq_false hwanted, Bool.false_or, Json.get_eq, if_pos h.required]
    show ((location capabilities).get "venue_id" >>= _) = _
    rw [Json.get_eq, if_pos h.location]
    rfl

theorem andThen_ok (a b : Bool) : andThen (.ok a) (.ok b) = .ok (a && b) := by
  cases a with
  | true => rfl
  | false => rfl

theorem matchesRequired_eq (hquery : WellShapedQuery query) (h : WellShaped capabilities) :
    matchesRequired (wantedFor query) capabilities = .ok (satisfies query capabilities) := by
  rw [matchesRequired, Json.get_eq, if_pos h.object]
  show andThen (methodsMatch (wantedFor query).methods (requiredBlock capabilities))
    (andThen (descriptorsMatch (wantedFor query).descriptors (requiredBlock capabilities))
      (andThen (certificationsMatch (wantedFor query).certifications (requiredBlock capabilities))
        (venueMatch (query.member "location_venue_id") (requiredBlock capabilities)))) = _
  rw [methodsMatch_eq hquery h, descriptorsMatch_eq hquery h, certificationsMatch_eq hquery h,
    venueMatch_eq query h, andThen_ok, andThen_ok, andThen_ok, satisfies]
  simp only [Bool.and_assoc]

/-! ## The matcher -/

theorem filterWorkers_eq {wanted : Wanted} {keep : Json → Bool} {workers : List WcpWorker}
    (h : ∀ w ∈ workers, matchesRequired wanted w.capabilitiesJson = .ok (keep w.capabilitiesJson)) :
    filterWorkers wanted workers = .ok (workers.filter fun w => keep w.capabilitiesJson) := by
  induction workers with
  | nil => rfl
  | cons w workers ih =>
      rw [filterWorkers, h w List.mem_cons_self, ih fun x hx => h x (List.mem_cons_of_mem w hx),
        List.filter_cons]
      rfl

theorem satisfies_empty (capabilities : Json) : satisfies (.obj []) capabilities = true := by
  unfold satisfies
  simp [queried, Json.memberD, Json.member, Json.or, Json.truthy, Json.elements,
    Json.amongOffered]

theorem eq_empty_of_falsy (hobject : query.isObject = true) (hfalsy : query.truthy = false) :
    query = .obj [] := by
  cases query with
  | obj ms =>
      cases ms with
      | nil => rfl
      | cons m ms => cases hfalsy
  | _ => cases hobject

variable {env : Env} {db : Db} {filter : Json} {candidates : List WcpWorker}

theorem wantedOf_eq (h : WellShapedQuery query) : wantedOf query = .ok (wantedFor query) := by
  have hget : ∀ key d, (query.getD key d : Except Err Json) = .ok (query.memberD key d) := by
    intro key d
    rw [Json.getD_eq, if_pos h.object]
  have hset : ∀ {v : Json}, v.settable = true →
      (v.toSet : Except Err (List Json)) = .ok v.asSet := by
    intro v hv
    rw [Json.toSet_eq, if_pos hv]
  have hvenue : (query.get "location_venue_id" : Except Err Json) =
      .ok (query.member "location_venue_id") := by
    rw [Json.get_eq, if_pos h.object]
  refine bind_eq_ok.2 ⟨_, hget _ _, bind_eq_ok.2 ⟨_, hset h.methods, ?_⟩⟩
  refine bind_eq_ok.2 ⟨_, hget _ _, bind_eq_ok.2 ⟨_, hset h.descriptors, ?_⟩⟩
  refine bind_eq_ok.2 ⟨_, hget _ _, bind_eq_ok.2 ⟨_, hset h.certifications, ?_⟩⟩
  exact bind_eq_ok.2 ⟨_, hvenue, rfl⟩

/-- The matcher finds the workers of the filter that satisfy the query, in table order. -/
theorem matchingWorkers_wellShaped (hworkers : ∀ w ∈ db.workers, WellShaped w.capabilitiesJson)
    (hcandidates : candidateWorkers env db filter = .ok candidates)
    (hquery : WellShapedQuery query) :
    matchingWorkers env db query filter =
      .ok (candidates.filter fun w => satisfies query w.capabilitiesJson) := by
  rw [matchingWorkers_eq, hcandidates]
  show (if query.truthy = false then _ else _) = _
  by_cases hfalsy : query.truthy = false
  · rw [if_pos hfalsy, eq_empty_of_falsy hquery.object hfalsy]
    simp only [satisfies_empty, List.filter_true]
    rfl
  · rw [if_neg hfalsy, wantedOf_eq hquery]
    refine filterWorkers_eq fun w hw => ?_
    have hin := ((candidateWorkers_eq_ok hcandidates w).1 hw).1
    exact matchesRequired_eq hquery (hworkers w hin)

/-! ## Two queries -/

/-- What either query lists under a key. -/
def mergedList (q₁ q₂ : Json) (key : String) : Json :=
  .arr ((queried q₁ key).elements ++ (queried q₂ key).elements)

/-- The merged query: the unions of the lists, and the venue that one of the queries names. -/
def mergeQueries (q₁ q₂ : Json) : Json := .obj [
  ("attestation_methods", mergedList q₁ q₂ "attestation_methods"),
  ("descriptor_types", mergedList q₁ q₂ "descriptor_types"),
  ("certifications", mergedList q₁ q₂ "certifications"),
  ("location_venue_id", if q₁.member "location_venue_id" = .null then
    q₂.member "location_venue_id" else q₁.member "location_venue_id")]

/-- The queries do not ask for two different venues. -/
def SameVenue (q₁ q₂ : Json) : Prop :=
  q₁.member "location_venue_id" = .null ∨ q₂.member "location_venue_id" = .null ∨
    q₁.member "location_venue_id" = q₂.member "location_venue_id"

/-- The second query asks for everything that the first one asks for. -/
structure AsksMore (q q' : Json) : Prop where
  lists : ∀ key ∈ ["attestation_methods", "descriptor_types", "certifications"],
    (queried q key).elements ⊆ (queried q' key).elements
  venue : q.member "location_venue_id" = .null ∨
    q.member "location_venue_id" = q'.member "location_venue_id"

variable {q₁ q₂ q q' : Json}

theorem arr_or_nil (xs : List Json) : (Json.arr xs).or (.arr []) = .arr xs := by
  cases xs with
  | nil => rfl
  | cons x xs => rfl

theorem elements_queried_merge {key : String}
    (h : (mergeQueries q₁ q₂).memberD key (.arr []) = mergedList q₁ q₂ key) :
    (queried (mergeQueries q₁ q₂) key).elements =
      (queried q₁ key).elements ++ (queried q₂ key).elements := by
  rw [queried, h, mergedList, arr_or_nil]
  rfl

theorem wellShapedQuery_merge (h₁ : WellShapedQuery q₁) (h₂ : WellShapedQuery q₂) :
    WellShapedQuery (mergeQueries q₁ q₂) := by
  have hlist : ∀ key, (queried q₁ key).settable = true → (queried q₂ key).settable = true →
      (mergeQueries q₁ q₂).memberD key (.arr []) = mergedList q₁ q₂ key →
      (queried (mergeQueries q₁ q₂) key).settable = true := by
    intro key hfirst hsecond h
    have hfirst := (Bool.and_eq_true_iff.1 hfirst).2
    have hsecond := (Bool.and_eq_true_iff.1 hsecond).2
    rw [queried, h, mergedList, arr_or_nil]
    show ((queried q₁ key).elements ++ (queried q₂ key).elements).all Json.hashable = true
    rw [List.all_append, hfirst, hsecond]
    rfl
  exact ⟨rfl, hlist _ h₁.methods h₂.methods rfl, hlist _ h₁.descriptors h₂.descriptors rfl,
    hlist _ h₁.certifications h₂.certifications rfl⟩

theorem satisfies_merge (hvenue : SameVenue q₁ q₂) (capabilities : Json) :
    satisfies (mergeQueries q₁ q₂) capabilities =
      (satisfies q₁ capabilities && satisfies q₂ capabilities) := by
  have hmember : (mergeQueries q₁ q₂).member "location_venue_id" =
      if q₁.member "location_venue_id" = .null then q₂.member "location_venue_id"
      else q₁.member "location_venue_id" := rfl
  have hvenues : (decide ((mergeQueries q₁ q₂).member "location_venue_id" = .null) ||
        ((location capabilities).member "venue_id").pyEq
          ((mergeQueries q₁ q₂).member "location_venue_id")) =
      ((decide (q₁.member "location_venue_id" = .null) ||
          ((location capabilities).member "venue_id").pyEq (q₁.member "location_venue_id")) &&
        (decide (q₂.member "location_venue_id" = .null) ||
          ((location capabilities).member "venue_id").pyEq (q₂.member "location_venue_id"))) := by
    rw [hmember]
    by_cases hnull : q₁.member "location_venue_id" = .null
    · rw [if_pos hnull, decide_eq_true hnull, Bool.true_or, Bool.true_and]
    · rw [if_neg hnull]
      rcases hvenue with hfirst | hsecond | hsame
      · exact absurd hfirst hnull
      · rw [decide_eq_true hsecond, Bool.true_or, Bool.and_true]
      · rw [hsame, Bool.and_self]
  unfold satisfies
  rw [elements_queried_merge rfl, elements_queried_merge rfl, elements_queried_merge rfl,
    Json.amongOffered_append, Json.amongOffered_append, Json.amongOffered_append, hvenues,
    Bool.or_and_distrib_left]
  simp only [Bool.and_assoc, Bool.and_left_comm, Bool.and_comm]

theorem satisfies_of_asksMore (h : AsksMore q q') {capabilities : Json}
    (hmore : satisfies q' capabilities = true) : satisfies q capabilities = true := by
  have hall : ∀ key ∈ ["attestation_methods", "descriptor_types", "certifications"],
      ∀ offers, Json.amongOffered (queried q' key).elements offers = true →
        Json.amongOffered (queried q key).elements offers = true := by
    intro key hkey offers hamong
    rw [Json.amongOffered, List.all_eq_true] at hamong ⊢
    exact fun x hx => hamong x (h.lists key hkey hx)
  unfold satisfies at hmore ⊢
  simp only [Bool.and_eq_true, Bool.or_eq_true, decide_eq_true_eq] at hmore ⊢
  obtain ⟨⟨⟨hmethods, hdescriptors⟩, hcertifications⟩, hvenue⟩ := hmore
  refine ⟨⟨⟨hall _ (by simp) _ hmethods, ?_⟩, hall _ (by simp) _ hcertifications⟩, ?_⟩
  · exact hdescriptors.imp_right (hall _ (by simp) _)
  · rcases h.venue with hnull | hsame
    · exact .inl hnull
    · rw [hsame]
      exact hvenue

/-- The merged query finds, in table order, exactly the workers that both queries find; the empty
query finds all workers of the filter; and asking for more never adds a worker.  A filter that
the database refuses is refused with every query. -/
theorem matching_conjunctive (env : Env) (db : Db) (filter : Json)
    (hworkers : ∀ w ∈ db.workers, WellShaped w.capabilitiesJson) :
    (∀ e, candidateWorkers env db filter = .error e →
      ∀ q, matchingWorkers env db q filter = .error e) ∧
    (∀ candidates, candidateWorkers env db filter = .ok candidates →
      matchingWorkers env db (.obj []) filter = .ok candidates ∧
      (∀ q₁ q₂, WellShapedQuery q₁ → WellShapedQuery q₂ → SameVenue q₁ q₂ →
        ∃ found₁ found₂, matchingWorkers env db q₁ filter = .ok found₁ ∧
          matchingWorkers env db q₂ filter = .ok found₂ ∧
          matchingWorkers env db (mergeQueries q₁ q₂) filter =
            .ok (candidates.filter fun w => decide (w ∈ found₁) && decide (w ∈ found₂))) ∧
      (∀ q q', WellShapedQuery q → WellShapedQuery q' → AsksMore q q' →
        ∃ found found', matchingWorkers env db q filter = .ok found ∧
          matchingWorkers env db q' filter = .ok found' ∧ found'.Sublist found)) := by
  constructor
  · intro e hrefused q
    rw [matchingWorkers_eq, hrefused]
    rfl
  · intro candidates hcandidates
    have hfound := fun {query} => @matchingWorkers_wellShaped query env db filter candidates
      hworkers hcandidates
    refine ⟨?_, ?_, ?_⟩
    · rw [matchingWorkers_eq, hcandidates]
      rfl
    · intro q₁ q₂ h₁ h₂ hvenue
      refine ⟨_, _, hfound h₁, hfound h₂, ?_⟩
      rw [hfound (wellShapedQuery_merge h₁ h₂)]
      refine congrArg Except.ok (List.filter_congr fun w hw => ?_)
      rw [satisfies_merge hvenue, Bool.eq_iff_iff]
      simp [List.mem_filter, hw]
    · intro q q' h h' hmore
      refine ⟨_, _, hfound h, hfound h', ?_⟩
      exact List.monotone_filter_right _ fun w hw => satisfies_of_asksMore hmore hw

/-- A worker with some methods and certificates that takes all descriptor types. -/
def thermalWorker (workerId : String) (methods certificates : List String) : WcpWorker where
  workerId := workerId
  principalId := workerId
  workerClass := .human
  capabilitiesJson := .obj [("required", .obj [
    ("attestation_methods_supported", .arr (methods.map .str)),
    ("certifications", .arr (certificates.map fun id => .obj [("id", .str id)]))])]
  revision := 1
  ttlSeconds := .int 3600
  asOf := .utc 0

/-- One worker has the method, one the certificate and one both. -/
def thermalDb : Db := { Db.empty with workers := [
  thermalWorker "did:wcp:sensor" ["sensor-witness"] [],
  thermalWorker "did:wcp:both" ["sensor-witness"] ["THERMAL-IR-L2"],
  thermalWorker "did:wcp:thermal" [] ["THERMAL-IR-L2"]] }

theorem wellShaped_thermalWorker (workerId : String) (methods certificates : List String) :
    WellShaped (thermalWorker workerId methods certificates).capabilitiesJson where
  object := rfl
  required := rfl
  methods := by
    cases methods with
    | nil => rfl
    | cons m ms =>
        refine List.all_eq_true.2 fun v hv => ?_
        obtain ⟨_, -, rfl⟩ := List.mem_map.1 hv
        rfl
  descriptors := rfl
  certifications := by
    cases certificates with
    | nil => exact ⟨rfl, fun c hc => absurd hc List.not_mem_nil⟩
    | cons id ids =>
        refine ⟨rfl, fun c hc => ?_⟩
        obtain ⟨_, -, rfl⟩ := List.mem_map.1 hc
        exact ⟨rfl, rfl⟩
  location := rfl

/-- The merged query for the method and the certificate finds the one worker that both queries
find. -/
theorem matching_conjunctive_thermal :
    (matchingWorkers localEnv thermalDb
        (.obj [("attestation_methods", .arr [.str "sensor-witness"])]) .null).map
        (·.map (·.workerId)) = .ok ["did:wcp:sensor", "did:wcp:both"] ∧
    (matchingWorkers localEnv thermalDb
        (.obj [("certifications", .arr [.str "THERMAL-IR-L2"])]) .null).map
        (·.map (·.workerId)) = .ok ["did:wcp:both", "did:wcp:thermal"] ∧
    ∃ found₁ found₂,
      matchingWorkers localEnv thermalDb
        (.obj [("attestation_methods", .arr [.str "sensor-witness"])]) .null = .ok found₁ ∧
      matchingWorkers localEnv thermalDb
        (.obj [("certifications", .arr [.str "THERMAL-IR-L2"])]) .null = .ok found₂ ∧
      matchingWorkers localEnv thermalDb
        (mergeQueries (.obj [("attestation_methods", .arr [.str "sensor-witness"])])
          (.obj [("certifications", .arr [.str "THERMAL-IR-L2"])])) .null =
        .ok (thermalDb.workers.filter fun w => decide (w ∈ found₁) && decide (w ∈ found₂)) := by
  have hworkers : ∀ w ∈ thermalDb.workers, WellShaped w.capabilitiesJson := by
    intro w hw
    simp only [thermalDb, List.mem_cons, List.not_mem_nil, or_false] at hw
    rcases hw with rfl | rfl | rfl <;> exact wellShaped_thermalWorker _ _ _
  refine ⟨by decide +kernel, by decide +kernel, ?_⟩
  exact ((matching_conjunctive localEnv thermalDb .null hworkers).2 thermalDb.workers rfl).2.1 _ _
    ⟨rfl, rfl, rfl, rfl⟩ ⟨rfl, rfl, rfl, rfl⟩ (.inl rfl)

end Wcp.Coordinator
