import ExecutionFinality.Reference.Anticipation
import ExecutionFinality.Reference.SourceLimits

/-! What the limits of a source bound at the other end: the effects that are ever committed for its acts. -/
namespace ExecutionFinality
open Function (update)
open Platform

variable {D : Deployment} {s : System}

/-- An effect was authorized by a call of `authorize` for its act, which issued the capability that it used. -/
theorem effect_authorized (hrigid : D.pf.nfc.HexRigid) (hissued : CapabilitiesIssued D s)
    (hmade : ∀ k c e cap, s.authorizing k = .returned c e cap → ∃ d t now,
      ProtectedAuthority.CapabilityFor D.pf D.authority d c t e now cap)
    (hverified : ArgsVerified D s) (hrecords : RecordsFor D s) {k : Nat} {x : EffectuateArgs} {r : EffectRecord} {i : Nat}
    (hk : (s.effectuating k).effect? = some (x,r,i)) : ∃ j c e cap, s.authorizing j = .returned c e cap ∧
      D.pf.SameNormal cap.unsigned x.cap.unsigned ∧ x.cap.capabilityId = cap.capabilityId ∧
        c.digest D.pf = .ok r.candidateDigest := by
  have hargs := Effectuating.args?_of_claim? (Effectuating.claim?_of_effect? hk)
  obtain ⟨j,c,e,cap,hj,hn⟩ := hissued k x hargs
  obtain ⟨_,_,_,hcap⟩ := hmade j c e cap hj
  obtain ⟨_,_,hv⟩ := hverified k x hargs
  have hid := hn.symm.text "capability_id" (s := x.cap.capabilityId) (t := cap.capabilityId) (by simp) (by simp)
  have hd := hn.text "candidate_digest" (s := cap.candidateDigest) (t := x.cap.candidateDigest)
    (by simp [Capability.core]) (by simp [Capability.core])
  have hdigest := hrigid.eq_of_sameText (isHex_of_sha256Hex hv.candidateDigest) hd
  refine ⟨j,c,e,cap,hj,hn,hrigid.eq_of_sameText (isHex_of_sha256Hex hcap.capabilityId) hid,?_⟩
  rw [hcap.candidateDigest,hdigest,← hv.candidateDigest,(hrecords k x r i hk).1]

/-- Two effects of one authorization are one. -/
theorem effects_distinct (howned : ClaimsOwned s) {j k : Nat} {y z : EffectuateArgs × EffectRecord × Nat}
    (hj : (s.effectuating j).effect? = some y) (hk : (s.effectuating k).effect? = some z)
    (hid : y.1.cap.capabilityId = z.1.cap.capabilityId) : j = k :=
  howned j k _ _ (Effectuating.claim?_of_effect? hj) (Effectuating.claim?_of_effect? hk) hid

theorem sameText_source (hcollision : D.pf.NoCollision) {c c' : CandidateAct} {d : PyStr}
    (h : c.digest D.pf = .ok d) (h' : c'.digest D.pf = .ok d) : SameText D.pf.nfc c.source c'.source :=
  (hcollision.sameNormal h h').text "source" (by simp [CandidateAct.fields]) (by simp [CandidateAct.fields])

namespace AccountedRun
variable {s₀ : System} {s : AccountedRun} {allowed : AccountedRun → Action → Prop}

/-- The system of an accounted run is a run of its own. -/
theorem reaches_system (allowed' : System → Action → Prop) (h₀ : s₀.Initial)
    (hle : ∀ s a, allowed s a → allowed' s.system a)
    (h : Machine.Reaches (D.accounted.startingAt ⟨s₀,[]⟩) allowed s) :
    Machine.Reaches D.machine allowed' s.system := by
  induction h with
  | init h => exact h ▸ .init h₀
  | step _ ha hs ih => exact ih.step (hle _ _ ha) hs.1

/-- Calls that returned a capability for one source stay within what one source starts with. -/
theorem authorized_bounded (hacc : Accounted D s₀ s) (honce : SpelledOnce D s)
    (hsources : ∀ a, s₀.state.sources a = none) (hq : 0 ≤ s₀.state.defaultQuota) (hb : 0 ≤ s₀.state.defaultBudget)
    {source : PyStr} {ys : List (Nat × Reservation)} (hnodup : ys.Nodup)
    (hys : ∀ y ∈ ys, y ∈ s.authorized D.pf source) :
    (ys.length : Int) ≤ s₀.state.defaultQuota ∧ (ys.map (·.2.cost)).sum ≤ s₀.state.defaultBudget := by
  obtain ⟨zs,hperm,hsub⟩ := hnodup.subperm hys
  obtain ⟨b,hcalls⟩ := honce.authorized_sublist source
  have hbounds := hacc.sublist_bounded hsources hq hb ((hsub.map Prod.snd).trans hcalls)
  rw [List.length_map,List.map_map] at hbounds
  rw [← hperm.length_eq,← (hperm.map _).sum_eq]
  exact hbounds

/-- While no source is respelled, the effects of the acts of a source, in all its spellings, stay within the quota
and, at what their own authorizations cost, within the budget that one source starts with; a revoked source has none. -/
theorem effects_within_limits (hcollision : D.pf.NoCollision) (hrigid : D.pf.nfc.HexRigid) (h₀ : s₀.Initial)
    (hsources : ∀ a, s₀.state.sources a = none) (hq : 0 ≤ s₀.state.defaultQuota) (hb : 0 ≤ s₀.state.defaultBudget)
    (h : Machine.Reaches (D.accounted.startingAt ⟨s₀,[]⟩) (fun s a => (a.Unconfigured ∧ SourceSpelledOnce D s.system a) ∧
      NotResigned a ∧ CapabilityUnforged D s.system a) s) (source : PyStr) (ks : List Nat) (hnodup : ks.Nodup)
    (hks : ∀ k ∈ ks, ∃ y, (s.system.effectuating k).effect? = some y ∧
      SameText D.pf.nfc y.1.candidate.source source) :
    ∃ f : {k // k ∈ ks} → Nat × Reservation, Function.Injective f ∧
      (∀ k, f k ∈ s.log ∧ ∀ y, (s.system.effectuating k).effect? = some y →
        (f k).2.candidate.digest D.pf = .ok y.2.1.candidateDigest) ∧
      ks.length ≤ s₀.state.defaultQuota ∧ (ks.attach.map fun k => (f k).2.cost).sum ≤ s₀.state.defaultBudget ∧
      ((∃ r ∈ D.authority.policy.revokedSources, SameText D.pf.nfc r source) → ks = []) := by
  obtain ⟨hacc,honce⟩ := accounts h₀ hsources (fun _ _ h => h.1) h
  have hrun := reaches_system (fun s a => NotResigned a ∧ CapabilityUnforged D s a) h₀ (fun _ _ h => h.2) h
  have hissued := hrun.invariant (capabilitiesIssued_preserved (fun _ _ h => h.1) fun _ _ h => h.2)
  have hmade (k : Nat) (c : CandidateAct) (e : ValidationEvidence) (cap : Capability)
      (hk : s.system.authorizing k = .returned c e cap) : ∃ d t now,
        ProtectedAuthority.CapabilityFor D.pf D.authority d c t e now cap := by
    obtain ⟨d,t,now,_,hcap⟩ := (hrun.invariant authorizingMatch_preserved).returned k c e cap hk
    exact ⟨d,t,now,hcap⟩
  have hrecords := hrun.invariant recordsFor_preserved
  have account (k : {k // k ∈ ks}) : ∃ y : Nat × Reservation, y ∈ s.authorized D.pf source ∧
      ∃ z c e cap, (s.system.effectuating k).effect? = some z ∧ s.system.authorizing y.1 = .returned c e cap ∧
        z.1.cap.capabilityId = cap.capabilityId ∧ y.2.candidate.digest D.pf = .ok z.2.1.candidateDigest := by
    obtain ⟨⟨x,r,i⟩,heffect,hsource⟩ := hks k k.2
    obtain ⟨j,c,e,cap,hj,_,hid,hdigest⟩ := effect_authorized hrigid hissued hmade
      (hrun.invariant argsVerified_preserved) hrecords heffect
    obtain ⟨y,hy,rfl,rfl⟩ := hacc.reserved j c (by rw [hj]; rfl)
    refine ⟨y,List.mem_filter.mpr ⟨hy,decide_eq_true ⟨?_,by rw [hj]; rfl⟩⟩,_,_,e,cap,heffect,hj,hid,hdigest⟩
    exact (sameText_source hcollision hdigest (hrecords k x r i heffect).1).trans hsource
  choose f hf using account
  have hinj : Function.Injective f := by
    intro j k hjk
    obtain ⟨_,y,_,_,cap,hy,hcap,hid,_⟩ := hf j
    obtain ⟨_,z,_,_,cap',hz,hcap',hid',_⟩ := hf k
    rw [hjk,hcap'] at hcap
    cases hcap
    exact Subtype.ext (effects_distinct (hrun.invariant claimsOwned_preserved) hy hz (hid.trans hid'.symm))
  have hmem (y : Nat × Reservation) (hy : y ∈ ks.attach.map f) : y ∈ s.authorized D.pf source := by
    obtain ⟨k,_,rfl⟩ := List.mem_map.mp hy
    exact (hf k).1
  obtain ⟨hlength,hcost⟩ := authorized_bounded hacc honce hsources hq hb
    ((List.nodup_attach.mpr hnodup).map hinj) hmem
  rw [List.length_map,List.length_attach] at hlength
  rw [List.map_map] at hcost
  refine ⟨f,hinj,fun k => ⟨(List.mem_filter.mp (hf k).1).1,fun y hy => ?_⟩,hlength,hcost,?_⟩
  · obtain ⟨_,z,_,_,_,hz,_,_,hdigest⟩ := hf k
    cases hz.symm.trans hy
    exact hdigest
  · rintro ⟨r,hr,hsource⟩
    apply List.eq_nil_iff_forall_not_mem.mpr
    intro k hk
    obtain ⟨hlog,hy⟩ := List.mem_filter.mp (hf ⟨k,hk⟩).1
    exact honce.unrevoked _ hlog r hr (hsource.trans (of_decide_eq_true hy).1.symm)

/-- A call of `effectuate` that takes effect runs without interruption. -/
theorem reaches_afterCommit {start : AccountedRun} {k : Nat} {x : EffectuateArgs} {record : EffectRecord}
    (h : Machine.Reaches (D.accounted.startingAt start) allowed s) (hk : s.system.effectuating k = .idle)
    (hc : FinalitySink.Commits D.pf (D.sinks x.sink) s.system.evidence s.system.state s.system.consumption
      (s.system.effectors (D.boundTo x.sink)) x.candidate x.cap x.now x.presentationProof record)
    (hverify : allowed s (.verify k x)) (hclaim : ∀ s, allowed s (.claim k)) (hcommit : ∀ s, allowed s (.commit k)) :
    Machine.Reaches (D.accounted.startingAt start) allowed ⟨s.system.afterCommit D k x record,s.log⟩ := by
  have free {system system' : System} {a : Action} (hs : Step D system a system') (hcharges : D.charges system a = []) :
      D.accounted.Step ⟨system,s.log⟩ a ⟨system',s.log⟩ := ⟨hs,by simp only [hcharges,List.append_nil]⟩
  have h1 := h.step hverify (free (Step.verify hk (FinalitySink.verify_eq_ok.mpr ⟨hc.verified,rfl⟩)) rfl)
  have h2 := h1.step (hclaim _) (free (Step.claim (k := k) (Function.update_self ..)
    (ConsumptionStore.claim_eq_ok.mpr ⟨hc.unclaimed,rfl⟩)) rfl)
  simp only [Function.update_idem] at h2
  exact h2.step (hcommit _) (free (System.step_afterCommit hc) rfl)

/-- The effect of the sample act counts once against its source. -/
theorem effects_within_limits_sample : ∃ (s : AccountedRun) (record : EffectRecord),
    (s.system.effectors 0).records = [record] ∧
    ∃ f : {k // k ∈ [0]} → Nat × Reservation, Function.Injective f ∧
      (∀ k, f k ∈ s.log ∧ ∀ y, (s.system.effectuating k).effect? = some y →
        (f k).2.candidate.digest samplePlatform = .ok y.2.1.candidateDigest) ∧
      ([0] : List Nat).length ≤ (1000 : Int) := by
  obtain ⟨cap,state,store,record,hauth,hc⟩ := FinalitySink.sample_commits sampleAuthority.authenticator none
    (py "n") .none .none (Authenticator.signer_paired _ _).trusts (py_isText _) ⟨_,rfl⟩ rfl
  have h0 : Machine.Reaches (sampleDeployment.accounted.startingAt ⟨sampleSystem,[]⟩)
      (fun s a => (a.Unconfigured ∧ SourceSpelledOnce sampleDeployment s.system a) ∧
        NotResigned a ∧ CapabilityUnforged sampleDeployment s.system a) ⟨sampleSystem,[]⟩ := .init rfl
  obtain ⟨e,y,_,h1⟩ := reaches_afterAuthorize h0 (k := 0) rfl hauth
    ⟨⟨trivial,fun a ha => absurd rfl ha,fun r hr => absurd hr (Finset.notMem_empty r)⟩,trivial,trivial⟩
    (fun _ => ⟨⟨trivial,trivial⟩,trivial,trivial⟩) (fun _ => ⟨⟨trivial,trivial⟩,trivial,trivial⟩)
  have hsigned : CapabilityUnforged sampleDeployment
      (sampleSystem.afterAuthorize sampleDeployment 0 (sampleAct (py "n") .none) e cap state store)
      (.verify 0 (sampleArgs cap)) := by
    obtain ⟨b,hb⟩ := (Authenticator.verify_eq_true hc.verified.signature).2
    exact fun _ => ⟨.capability cap,b,List.mem_cons_self ..,hb,hb⟩
  have h2 := reaches_afterCommit h1 (k := 0) (x := sampleArgs cap) rfl hc ⟨⟨trivial,trivial⟩,trivial,hsigned⟩
    (fun _ => ⟨⟨trivial,trivial⟩,trivial,trivial⟩) (fun _ => ⟨⟨trivial,trivial⟩,trivial,trivial⟩)
  obtain ⟨f,hf,hlog,hlength,_⟩ := effects_within_limits samplePlatform_noCollision sampleNfc_hexRigid
    sampleSystem_initial (fun _ => rfl) (by decide) (by decide) h2 (py "agent") [0] (List.nodup_singleton _)
    fun k hk => by
      cases List.mem_singleton.mp hk
      exact ⟨_,System.afterCommit_effect,(show SameText sampleNfc (py "agent") (py "agent") by decide)⟩
  exact ⟨_,record,by simp [System.afterCommit,sampleDeployment,System.afterAuthorize,sampleSystem,sampleEffector],
    f,hf,hlog,hlength⟩

end AccountedRun
end ExecutionFinality
