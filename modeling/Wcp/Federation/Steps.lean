import Wcp.Coordinator.Transactions
import Wcp.Federation.AuditExport
import Wcp.Federation.Router
/-!
# What the federation calls do

One rule for each primitive of the federation layer and one specification for each
of its calls: what `add` and `remove` leave in the store, which anchor `pickPeer`
returns, when `forwardTask` invokes the forwarder and what `importPeerChain`
reports and records.
-/

namespace Wcp.Federation

open Wcp.Base
open Wcp.Base.Exec
open Wcp.Coordinator

variable {env : FederationEnv} {β : Type} {f : FederationState}
  {P : Except FErr β → FederationState → Prop}

/-! ## Primitives -/

/-- The state after the clock was read. -/
def FederationState.ticked (f : FederationState) : FederationState :=
  { f with world := { f.world with tick := f.world.tick + 1 } }

theorem timeNow_bind {k : PyFloat → FAction β}
    (h : Ends (k (env.time f.world.tick)) f.ticked P) : Ends (timeNow env >>= k) f P := h

theorem allowsNow_bind {a : TrustAnchor} {trustClass : String} {k : Bool → FAction β}
    (hread : Ends (k (a.allows trustClass (env.time f.world.tick))) f.ticked P)
    (hout : a.allows trustClass (env.time f.world.tick) = false → Ends (k false) f P) :
    Ends (allowsNow env a trustClass >>= k) f P := by
  unfold allowsNow
  by_cases hscope : trustClass ∈ a.scope
  · rw [if_pos hscope]
    have hallows : a.allows trustClass (env.time f.world.tick) =
        !a.isExpired (env.time f.world.tick) := by
      simp [TrustAnchor.allows, hscope]
    rw [hallows] at hread
    exact hread
  · rw [if_neg hscope]
    exact hout (by simp [TrustAnchor.allows, hscope])

/-- The session after an entry was added. -/
def FederationState.withEntry (f : FederationState) (entry : WcpAudit) : FederationState :=
  { f with world := f.world.withEntry entry 2 }

theorem onWorld_bind {α : Type} {m : Action α} {k : α → FAction β}
    (h : Ends m f.world fun r w =>
      match r with
      | .ok a => Ends (k a) { f with world := w } P
      | .error e => P (.error (ofService e)) { f with world := w }) :
    Ends (onWorld m >>= k) f P := by
  unfold Ends at h ⊢
  rw [Exec.bind_apply]
  unfold onWorld
  rcases hm : m f.world with ⟨_ | _, w⟩ <;> simpa [hm] using h

/-- An entry is added exactly where nothing is pending that the database refuses and the driver
stores the entry. -/
theorem onWorld_append_bind {eventType payload claimId taskId : Json} {actorDid : String}
    {k : AuditAppendResult → FAction β}
    (hok : ∀ r entry, f.world.doomed = false → env.stores eventType claimId taskId = true →
      entry.payloadJson = payload → Ends (k r) (f.withEntry entry) P)
    (herr : ¬(f.world.doomed = false ∧ env.stores eventType claimId taskId = true) →
      ∀ e w, P (.error e) { f with world := w }) :
    Ends (onWorld (append env.toEnv eventType actorDid payload claimId taskId none) >>= k) f P := by
  refine onWorld_bind ?_
  rw [append_none]
  have hts := normalizeTimestamp_utc (env.clock_lt f.world.tick)
  with_reducible refine utcnow_bind ?_
  with_reducible refine append_ends hts ?_ ?_ ?_
  · rintro r entry storedType claim task hdoomed hs hc ht ⟨prev, -, rfl⟩
    exact hok r _ hdoomed (by simp [Env.stores, hs, hc, ht]) rfl
  · intro hbad _ w
    exact herr hbad _ w
  · intro hunsent _
    refine herr (fun h => ?_) _ _
    cases (unsent_of_stores h.2).symm.trans hunsent

theorem invoke_bind {forwarder : Forwarder} {url method : String} {params : Json}
    {k : Json × String → FAction β}
    (h : ∀ answer, Ends (k answer) { f with sent := f.sent ++ [⟨url, method, params⟩] } P) :
    Ends (invoke forwarder url method params >>= k) f P := h _

/-! ## The store -/

/-- What `add` does: it stores an anchor whose signature verifies under the key it carries, or
leaves the store alone. -/
theorem add_ends (anchor : TrustAnchor) : Ends (add env anchor) f fun _ f' =>
    f'.sent = f.sent ∧
      (f'.anchors = f.anchors ∨
        (f'.anchors = f.anchors.set anchor.peerCoordinatorDid anchor ∧
          anchor.verifySignature env.toEnv = true)) := by
  unfold add
  refine Ends.require_bind ?_ fun _ => ⟨rfl, .inl rfl⟩
  intro hverify
  refine timeNow_bind (Ends.require_bind ?_ fun _ => ⟨rfl, .inl rfl⟩)
  intro _
  exact Ends.write ⟨rfl, .inr ⟨rfl, hverify⟩⟩

theorem remove_ends (audited : Bool) (peerDid reason : String) :
    Ends (remove env audited peerDid reason) f fun _ f' =>
      f'.sent = f.sent ∧ (f'.anchors = f.anchors ∨ f'.anchors = f.anchors.pop peerDid) := by
  unfold remove
  refine Ends.reads_bind ?_ nofun
  intro removed _
  cases removed with
  | none => exact Ends.pure ⟨rfl, .inl rfl⟩
  | some anchor =>
      refine Ends.write_bind ?_
      cases audited with
      | false => exact Ends.pure ⟨rfl, .inr rfl⟩
      | true =>
          refine timeNow_bind (onWorld_append_bind ?_ ?_)
          · exact fun _ _ _ _ _ => Ends.pure ⟨rfl, .inr rfl⟩
          · exact fun _ _ _ => ⟨rfl, .inr rfl⟩

/-- The anchors of a class are among those looked at and have the class in scope. -/
theorem anchorsForClass_ends (trustClass : String) (anchors : List TrustAnchor) :
    Ends (anchorsForClass env trustClass anchors) f fun r f' =>
      (f'.sent = f.sent ∧ f'.anchors = f.anchors) ∧
        ∃ live, r = .ok live ∧ ∀ a ∈ live, a ∈ anchors ∧ trustClass ∈ a.scope := by
  induction anchors generalizing f with
  | nil => exact ⟨⟨rfl, rfl⟩, [], rfl, nofun⟩
  | cons a anchors ih =>
      unfold anchorsForClass
      have hrest : ∀ (allowed : Bool) (f₁ : FederationState), f₁.sent = f.sent →
          f₁.anchors = f.anchors → (allowed = true → trustClass ∈ a.scope) →
          Ends (do
            let others ← anchorsForClass env trustClass anchors
            return if allowed then a :: others else others) f₁ fun r f' =>
            (f'.sent = f.sent ∧ f'.anchors = f.anchors) ∧
              ∃ live, r = .ok live ∧ ∀ x ∈ live, x ∈ a :: anchors ∧ trustClass ∈ x.scope := by
        intro allowed f₁ hsent hanchors hscope
        refine Ends.bind (Ends.mono ih ?_)
        rintro r f' ⟨⟨hsent', hanchors'⟩, live, rfl, hlive⟩
        refine ⟨⟨hsent'.trans hsent, hanchors'.trans hanchors⟩, _, rfl, ?_⟩
        have hother : ∀ x ∈ live, x ∈ a :: anchors ∧ trustClass ∈ x.scope := fun x hx =>
          ⟨List.mem_cons_of_mem a (hlive x hx).1, (hlive x hx).2⟩
        cases allowed with
        | false => exact hother
        | true => exact List.forall_mem_cons.2 ⟨⟨List.mem_cons_self, hscope rfl⟩, hother⟩
      refine allowsNow_bind (hrest _ _ rfl rfl ?_) fun _ => hrest _ _ rfl rfl nofun
      intro hallows
      have hboth : trustClass ∈ a.scope ∧ a.isExpired (env.time f.world.tick) = false := by
        simpa [TrustAnchor.allows] using hallows
      exact hboth.1

/-! ## The router -/

/-- `pickPeer` returns a stored anchor with capability discovery in scope. -/
theorem pickPeer_ends (descriptorType : String) (allowed : Option (List (String × List String))) :
    Ends (pickPeer env descriptorType allowed) f fun r f' =>
      (f'.sent = f.sent ∧ f'.anchors = f.anchors) ∧
        ∀ a, r = .ok (some a) → a ∈ f.anchors.values ∧ "capability_discovery" ∈ a.scope := by
  unfold pickPeer
  refine Ends.reads_bind ?_ nofun
  intro anchors hanchors
  cases hanchors
  refine Ends.bind (Ends.mono (anchorsForClass_ends _ _) ?_)
  rintro r f' ⟨hsame, live, rfl, hlive⟩
  refine ⟨hsame, ?_⟩
  intro a ha
  exact hlive a (List.mem_of_find?_eq_some (Except.ok.inj ha))

/-- `forwardTask` invokes the forwarder once, with the endpoint of the anchor it is given, exactly
if a forwarder is configured and the store holds an anchor for the peer. -/
theorem forwardTask_ends (forwarder : Option Forwarder) (peer : TrustAnchor)
    (task : List (String × Json)) (expiry : String) (informational : List (String × Json)) :
    Ends (forwardTask env forwarder peer task expiry informational) f fun _ f' =>
      f'.anchors = f.anchors ∧
        f'.sent = f.sent ++
          if forwarder.isSome && (f.anchors.get peer.peerCoordinatorDid).isSome then
            [⟨peer.peerEndpointUrl, "tasks/post", forwardParams task expiry informational⟩]
          else [] := by
  unfold forwardTask
  cases forwarder with
  | none => exact ⟨rfl, (List.append_nil _).symm⟩
  | some forwarder =>
      refine Ends.reads_bind ?_ nofun
      intro stored hstored
      cases hstored
      refine Ends.require_bind ?_ ?_
      · intro hsome
        rw [hsome]
        refine invoke_bind ?_
        rintro ⟨result, status⟩
        refine onWorld_append_bind ?_ ?_
        · exact fun _ _ _ _ _ => Ends.pure ⟨rfl, rfl⟩
        · exact fun _ _ _ => ⟨rfl, rfl⟩
      · intro hnone
        rw [Bool.eq_false_iff.2 hnone]
        exact ⟨rfl, (List.append_nil _).symm⟩

/-! ## Imports -/

/-- What `importPeerChain` reports and records: nothing but a refusal where the anchor does not
allow the export, else the verdict of the walk beside the last hash and the event that ends the
task, in its result and in the entry it adds. -/
theorem importPeerChain_ends {fetch : String → String → List Json} {peer : TrustAnchor}
    {claimId : String} {Q : Except FErr ImportResult → FederationState → Prop}
    (hrefused : ∀ reason f', peer.allows "audit_chain_export" (env.time f.world.tick) = false →
      f'.world.db = f.world.db → Q (.ok ⟨false, reason, 0, .null, .null⟩) f')
    (hok : ∀ ok terminal completion entry f',
      peer.allows "audit_chain_export" (env.time f.world.tick) = true →
      verifyChainSegment env (fetch peer.peerEndpointUrl claimId) = .ok ok →
      terminalHash (fetch peer.peerEndpointUrl claimId) = .ok terminal →
      completionEvent (fetch peer.peerEndpointUrl claimId).reverse = .ok completion →
      f'.world.db.audit = f.world.db.audit ++ [entry] →
      entry.payloadJson = importPayload peer claimId
        ⟨ok, none, (fetch peer.peerEndpointUrl claimId).length, terminal, completion⟩ →
      Q (.ok ⟨ok, none, (fetch peer.peerEndpointUrl claimId).length, terminal, completion⟩) f')
    (herr : ∀ e f', ¬(f.world.doomed = false ∧
        env.stores (.str "federation_audit_chain_imported") (.str claimId) .null = true ∧
        (∃ ok, verifyChainSegment env (fetch peer.peerEndpointUrl claimId) = .ok ok) ∧
        (∃ terminal, (terminalHash (fetch peer.peerEndpointUrl claimId) : Except FErr Json) =
          .ok terminal) ∧
        ∃ completion, (completionEvent (fetch peer.peerEndpointUrl claimId).reverse :
          Except FErr Json) = .ok completion) →
      Q (.error e) f') :
    Ends (importPeerChain env (some fetch) peer claimId) f Q := by
  unfold importPeerChain
  refine allowsNow_bind ?_ ?_
  · cases hallows : peer.allows "audit_chain_export" (env.time f.world.tick) with
    | false => exact hrefused _ _ hallows rfl
    | true =>
        rw [if_neg (by simp)]
        refine Ends.lift_bind ?_ ?_
        · intro ok hverify
          refine Ends.lift_bind ?_ ?_
          · intro terminal hterminal
            refine Ends.lift_bind ?_ ?_
            · intro completion hcompletion
              refine onWorld_append_bind ?_ ?_
              · intro r entry hdoomed hstores hpayload
                exact Ends.pure (hok ok terminal completion entry _ hallows hverify hterminal
                  hcompletion rfl hpayload)
              · intro hbad e w
                exact herr _ _ fun h => hbad ⟨h.1, h.2.1⟩
            · intro e he
              exact herr _ _ fun h => by simp [he] at h
          · intro e he
            exact herr _ _ fun h => by simp [he] at h
        · intro e he
          exact herr _ _ fun h => by simp [he] at h
  · intro hallows
    exact hrefused _ _ hallows rfl

/-- An import returns where the export is allowed, the entries can be read and the database takes
the entry. -/
theorem importPeerChain_returns {fetch : String → String → List Json} {peer : TrustAnchor}
    {claimId : String} {ok : Bool} {terminal completion : Json}
    (hallows : peer.allows "audit_chain_export" (env.time f.world.tick) = true)
    (hdoomed : f.world.doomed = false)
    (hstores : env.stores (.str "federation_audit_chain_imported") (.str claimId) .null = true)
    (hverify : verifyChainSegment env (fetch peer.peerEndpointUrl claimId) = .ok ok)
    (hterminal : terminalHash (fetch peer.peerEndpointUrl claimId) = .ok terminal)
    (hcompletion : completionEvent (fetch peer.peerEndpointUrl claimId).reverse =
      .ok completion) :
    ∃ f', importPeerChain env (some fetch) peer claimId f =
      (.ok ⟨ok, none, (fetch peer.peerEndpointUrl claimId).length, terminal, completion⟩, f') := by
  have hends : Ends (importPeerChain env (some fetch) peer claimId) f fun out _ =>
      ∃ r, out = .ok r ∧
      r = ⟨ok, none, (fetch peer.peerEndpointUrl claimId).length, terminal, completion⟩ := by
    refine importPeerChain_ends ?_ ?_ ?_
    · intro reason f' hrefused
      cases hallows.symm.trans hrefused
    · intro ok' terminal' completion' entry f' _ hverify' hterminal' hcompletion' _ _
      cases hverify.symm.trans hverify'
      cases hterminal.symm.trans hterminal'
      cases hcompletion.symm.trans hcompletion'
      exact ⟨_, rfl, rfl⟩
    · intro e f' hbad
      exact (hbad ⟨hdoomed, hstores, ⟨_, hverify⟩, ⟨_, hterminal⟩, ⟨_, hcompletion⟩⟩).elim
  obtain ⟨r, f', hr, rfl⟩ := hends.exists_ok
  exact ⟨f', hr⟩

end Wcp.Federation
