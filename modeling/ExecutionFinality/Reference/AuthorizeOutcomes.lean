import ExecutionFinality.Reference.ProtectedRuns

/-! What a call of `authorize` leaves behind: everything that can fail on the contents of a
candidate fails before the protected state is written. -/
namespace ExecutionFinality
open Function (update)
open Platform

/-- The nonces, the transitions and the counters of every source are as they were. -/
structure ProtectedState.Unchanged (s s' : ProtectedState) : Prop where
  nonces : s'.nonces = s.nonces
  transitions : s'.transitions = s.transitions
  snapshot : ∀ b, (s'.snapshot b).1 = (s.snapshot b).1

/-- One transition of the candidate is written and its source is charged once. -/
structure ProtectedState.Wrote (pf : Platform) (s s' : ProtectedState) (c : CandidateAct) (cost : Int)
    (t : StateTransition) : Prop where
  reserves : Reserves pf c t
  unused : s.nonces c.nonce = none
  nonces : s'.nonces = update s.nonces c.nonce (some t.transitionId)
  transitions : s'.transitions = update s.transitions t.transitionId (some t)
  source : (s'.snapshot c.source).1 = ⟨(s.snapshot c.source).1.version + 1,(s.snapshot c.source).1.quota - 1,
    (s.snapshot c.source).1.budget - cost⟩
  others : ∀ b, b ≠ c.source → (s'.snapshot b).1 = (s.snapshot b).1

theorem ProtectedState.wrote_of_ok {pf : Platform} {s s' : ProtectedState} {c : CandidateAct} {cost : Int}
    {t : StateTransition} (h : s.transitionForAuthorization pf c cost = (.ok t,s')) : Wrote pf s s' c cost t := by
  obtain ⟨hnew,hr,hnonces,htransitions⟩ := transitionForAuthorization_ok h
  obtain ⟨_,_,_,hmeter⟩ := Meter.charge_eq_some.mp (charge_of_ok h)
  exact ⟨hr,hnew,hnonces,htransitions,SourceState.eq_of_meter hmeter,fun _ hb => snapshot_of_ok h hb⟩

theorem exists_compareDigest {s t : PyStr} (hs : IsHex s) (ht : IsHex t) : ∃ b, compareDigest s t = .ok b := by
  obtain ⟨b,rfl⟩ := hs
  obtain ⟨c,rfl⟩ := ht
  refine ⟨_,CheckChains.bind_eq_ok.mpr ⟨(),CheckChains.failIf_eq_ok.mpr (not_not.mpr fun x hx => ?_),rfl⟩⟩
  rcases List.mem_append.mp hx with hx | hx
  · obtain ⟨d,hd,rfl⟩ := List.mem_map.mp hx
    exact hexChars_ascii b d hd
  · obtain ⟨d,hd,rfl⟩ := List.mem_map.mp hx
    exact hexChars_ascii c d hd

/-- `verify` answers on what was signed, with any key. -/
theorem Authenticator.exists_verify {pf : Platform} {a b : Authenticator} {value : PyVal} {signature keyId : PyStr}
    (h : a.sign pf value = .ok signature) : ∃ ok, b.verify pf value signature keyId = .ok ok := by
  have hvalue := (exists_sign.mp ⟨_,h⟩).2
  unfold verify
  split
  · exact ⟨_,rfl⟩
  · cases b with
    | hmac key keyId =>
      obtain ⟨own,hown⟩ := exists_sign.mpr ⟨(show (Authenticator.hmac key keyId).CanSign from nofun),hvalue⟩
      obtain ⟨ok,hok⟩ := exists_compareDigest (isHex_of_sign hown) (isHex_of_sign h)
      exact ⟨ok,CheckChains.bind_eq_ok.mpr ⟨own,hown,hok⟩⟩
    | ed25519 keyId privateKey publicKey =>
      dsimp only
      split <;> exact ⟨_,rfl⟩

/-- Evidence that was signed is refused by `commit` with `EvidenceError` only. -/
theorem EvidenceStore.commit_error {pf : Platform} {store : EvidenceStore} {a : Authenticator}
    {e : ValidationEvidence} {exn : Exn} (hsign : a.sign pf e.unsigned = .ok e.signature)
    (h : store.commit pf e = .error exn) : ∃ text, exn = .evidenceError text := by
  obtain ⟨ok,hok⟩ : ∃ ok, store.authenticator.verify pf e.unsigned e.signature e.keyId = .ok ok :=
    Authenticator.exists_verify hsign
  simp only [commit,hok,CheckChains.ok_bind] at h
  by_cases hfail : store.failCommits = true
  · simp only [failIf,hfail,if_true] at h
    cases h
    exact ⟨_,rfl⟩
  by_cases hinvalid : ok = false
  · simp only [failIf,hfail,hinvalid,if_true] at h
    cases h
    exact ⟨_,rfl⟩
  by_cases hdup : (store.records e.evidenceId).isSome = true
  · simp only [failIf,hfail,hinvalid,hdup,if_true] at h
    cases h
    exact ⟨_,rfl⟩
  · simp only [failIf,hfail,hinvalid,hdup] at h
    cases h

namespace ProtectedAuthority
variable {pf : Platform} {a : ProtectedAuthority} {state state' : ProtectedState} {store store' : EvidenceStore}
  {c : CandidateAct} {cost now : Int} {out : Except Exn Capability}

/-- Nothing is written. -/
def Refused (state state' : ProtectedState) (store store' : EvidenceStore) (out : Except Exn Capability) : Prop :=
  (∃ exn, out = .error exn) ∧ state.Unchanged state' ∧ store' = store

/-- A call that gets past the protected state has made all there is to commit and to return,
whatever the candidate holds. -/
theorem authorize_of_transition {d : HCAD} {t : StateTransition} (hnfc : pf.nfc.FixesAscii)
    (hprints : ∀ n, pf.Prints n) (hid : a.authorityId.IsText) (hkey : a.authenticator.keyId.IsText)
    (hsign : a.authenticator.CanSign) (hadm : a.admission pf c now = .ok d)
    (ht : state.transitionForAuthorization pf c cost = (.ok t,state')) :
    ∃ e cap, EvidenceFor pf a d c t now e ∧ CapabilityFor pf a d c t e now cap := by
  obtain ⟨hbuild,_⟩ := admission_eq_ok.mp hadm
  obtain ⟨_,hr,_⟩ := ProtectedState.transitionForAuthorization_ok ht
  obtain ⟨cd,hcd,hti⟩ := hr.transitionId
  have hc : pf.Accepts c.value := exists_sha256Hex.mp ⟨cd,hcd⟩
  obtain ⟨d',hd',hda⟩ := HCAD.accepts hnfc hc none none (by simp) (by simp)
  cases Except.ok.inj (hbuild.symm.trans hd')
  have htt : t.transitionId.IsText := (isHex_of_sha256Hex hti).scalars
  obtain ⟨e,he⟩ := exists_evidence hnfc hda hc htt hid hkey hsign (hprints now)
  obtain ⟨cap,hcap⟩ := exists_capability hnfc hda hc htt (isHex_of_sha256Hex he.evidenceId).scalars hid hkey hsign
    (hprints now) (hprints _)
  exact ⟨e,cap,he,hcap⟩

/-- A call is refused with nothing written, or it gets past the protected state. -/
theorem authorize_cases (h : a.authorize pf state store c cost now = (out,state',store')) :
    Refused state state' store store' out ∨
      ∃ d t, a.admission pf c now = .ok d ∧ state.transitionForAuthorization pf c cost = (.ok t,state') := by
  unfold authorize at h
  split at h
  · cases h
    exact .inl ⟨⟨_,rfl⟩,⟨rfl,rfl,fun _ => rfl⟩,rfl⟩
  rename_i d hadm
  split at h
  · rename_i ht
    cases h
    obtain ⟨hsnapshot,hnonces,htransitions⟩ := ProtectedState.unchanged_of_error ht
    exact .inl ⟨⟨_,rfl⟩,⟨hnonces,htransitions,hsnapshot⟩,rfl⟩
  rename_i t s ht
  refine .inr ⟨d,t,hadm,?_⟩
  split at h
  · cases h
    exact ht
  split at h
  · cases h
    exact ht
  · cases h
    exact ht

/-- A store that fails its commits leaves the transition written. -/
theorem authorize_of_failCommits {d : HCAD} {t : StateTransition} {e : ValidationEvidence}
    (hadm : a.admission pf c now = .ok d) (ht : state.transitionForAuthorization pf c cost = (.ok t,state'))
    (he : EvidenceFor pf a d c t now e) (hfail : store.failCommits = true) :
    a.authorize pf state store c cost now =
      (.error (.evidenceError (py "evidence commit failure injected")),state',store) := by
  simp only [authorize,hadm,ht,evidence_eq_ok.mpr he,EvidenceStore.commit,failIf,hfail,if_true,CheckChains.error_bind]

/-- A candidate without canonical bytes, or one that the policy denies, changes nothing. -/
theorem refused_of_not_admitted (hbad : ¬ pf.Accepts c.value ∨ (a.policy.validate c now).1 = false)
    (h : a.authorize pf state store c cost now = (out,state',store')) : Refused state state' store store' out := by
  rcases authorize_cases h with h | ⟨d,t,hadm,ht⟩
  · exact h
  · obtain ⟨_,hr,_⟩ := ProtectedState.transitionForAuthorization_ok ht
    obtain ⟨cd,hcd,_⟩ := hr.transitionId
    rcases hbad with hbad | hbad
    · exact absurd (exists_sha256Hex.mp ⟨cd,hcd⟩) hbad
    · exact absurd (admission_eq_ok.mp hadm).2 (by rw [hbad]; decide)

/-- A call of `authorize` raises with nothing written, raises `EvidenceError` with one transition
written, or returns the capability of one transition and one evidence record, all written. -/
theorem authorize_outcomes (hnfc : pf.nfc.FixesAscii) (hprints : ∀ n, pf.Prints n) (hid : a.authorityId.IsText)
    (hkey : a.authenticator.keyId.IsText) (hsign : a.authenticator.CanSign)
    (h : a.authorize pf state store c cost now = (out,state',store')) :
    (Refused state state' store store' out ∨
      (∃ t text, out = .error (.evidenceError text) ∧ state.Wrote pf state' c cost t ∧ store' = store) ∨
      ∃ t e cap, out = .ok cap ∧ state.Wrote pf state' c cost t ∧ store.records e.evidenceId = none ∧
        store' = { store with records := update store.records e.evidenceId (some e) } ∧
        cap.transitionId = t.transitionId ∧ cap.evidenceId = e.evidenceId) ∧
    (¬ pf.Accepts c.value ∨ (a.policy.validate c now).1 = false → Refused state state' store store' out) ∧
    ∀ i, store'.records i ≠ store.records i → ∃ cap, out = .ok cap ∧ cap.evidenceId = i := by
  have houtcome : Refused state state' store store' out ∨
      (∃ t text, out = .error (.evidenceError text) ∧ state.Wrote pf state' c cost t ∧ store' = store) ∨
      ∃ t e cap, out = .ok cap ∧ state.Wrote pf state' c cost t ∧ store.records e.evidenceId = none ∧
        store' = { store with records := update store.records e.evidenceId (some e) } ∧
        cap.transitionId = t.transitionId ∧ cap.evidenceId = e.evidenceId := by
    rcases authorize_cases h with hrefused | ⟨d,t,hadm,ht⟩
    · exact .inl hrefused
    obtain ⟨e,cap,he,hcap⟩ := authorize_of_transition hnfc hprints hid hkey hsign hadm ht
    simp only [authorize,hadm,ht,evidence_eq_ok.mpr he] at h
    split at h
    · rename_i hcommit
      cases h
      obtain ⟨text,rfl⟩ := EvidenceStore.commit_error he.signature hcommit
      exact .inr (.inl ⟨t,text,rfl,ProtectedState.wrote_of_ok ht,rfl⟩)
    · rename_i hcommit
      rw [capability_eq_ok.mpr hcap] at h
      cases h
      obtain ⟨_,_,hnew,hstore⟩ := EvidenceStore.commit_eq_ok.mp hcommit
      exact .inr (.inr ⟨t,e,cap,rfl,ProtectedState.wrote_of_ok ht,hnew,hstore,hcap.transitionId,hcap.evidenceId⟩)
  refine ⟨houtcome,fun hbad => refused_of_not_admitted hbad h,fun i hi => ?_⟩
  rcases houtcome with ⟨_,_,rfl⟩ | ⟨_,_,_,_,rfl⟩ | ⟨t,e,cap,rfl,_,_,rfl,_,hcap⟩
  · exact absurd rfl hi
  · exact absurd rfl hi
  · refine ⟨cap,rfl,?_⟩
    by_contra hne
    exact hi (Function.update_of_ne (fun he => hne (hcap.trans he.symm)) ..)

/-- The sample platform without a digit limit -/
private def unlimitedPlatform : Platform := { samplePlatform with
  intMaxStrDigits := 0
  intMaxStrDigits_threshold := .inl rfl }

/-- The sample act with a float deep in its authority context -/
private def floatAct : CandidateAct := { sampleAct (py "n") .none with
  authorityContext := [(.str (py "temperature"),.list [.float])] }

private theorem unlimited_admissible : Admissible unlimitedPlatform sampleAuthority sampleState sampleEvidenceStore
    (sampleAct (py "n") .none) 1 200 := by
  have h := sampleAct_admissible (py "n") .none (py_isText _) ⟨_,rfl⟩
  obtain ⟨j,hj,_⟩ := accepts_iff.mp h.accepted
  exact { h with
    accepted := accepts_iff.mpr ⟨j,hj,fun _ _ => .inl rfl⟩
    source := fun _ _ => .inl rfl
    trusts := (Authenticator.signer_paired _ _).trusts
    evidence := fun _ _ _ _ => rfl
    nowPrints := .inl rfl
    expiresPrints := .inl rfl }

/-- One call for each outcome: a float in the authority context, a store that fails its commits, and a call that returns -/
theorem authorize_outcomes_sample :
    (∃ out state' store', sampleAuthority.authorize unlimitedPlatform sampleState sampleEvidenceStore floatAct 1 200 =
      (out,state',store') ∧ Refused sampleState state' sampleEvidenceStore store' out) ∧
    (∃ t text state', sampleAuthority.authorize unlimitedPlatform sampleState { sampleEvidenceStore with failCommits := true }
        (sampleAct (py "n") .none) 1 200 =
          (.error (.evidenceError text),state',{ sampleEvidenceStore with failCommits := true }) ∧
      sampleState.Wrote unlimitedPlatform state' (sampleAct (py "n") .none) 1 t) ∧
    ∃ t e cap state', sampleAuthority.authorize unlimitedPlatform sampleState sampleEvidenceStore
        (sampleAct (py "n") .none) 1 200 =
          (.ok cap,state',{ sampleEvidenceStore with
            records := update sampleEvidenceStore.records e.evidenceId (some e) }) ∧
      sampleState.Wrote unlimitedPlatform state' (sampleAct (py "n") .none) 1 t ∧
      cap.transitionId = t.transitionId ∧ cap.evidenceId = e.evidenceId := by
  have outcomes {c : CandidateAct} {store store' : EvidenceStore} {out : Except Exn Capability} {state' : ProtectedState} :=
    @authorize_outcomes unlimitedPlatform sampleAuthority sampleState state' store store' c 1 200 out sampleNfc_fixesAscii
      (fun _ => .inl rfl) (py_isText _) (py_isText _) (fun _ _ => (nomatch ·))
  obtain ⟨cap,state,store,hauth⟩ := unlimited_admissible.authorize sampleNfc_fixesAscii
  obtain ⟨d,t,e,hadm,htr,he,_⟩ := authorize_eq_ok.mp hauth
  refine ⟨?_,?_,?_⟩
  · generalize h : sampleAuthority.authorize unlimitedPlatform sampleState sampleEvidenceStore floatAct 1 200 = result
    obtain ⟨out,state',store'⟩ := result
    refine ⟨out,state',store',rfl,(outcomes h).2.1 (.inl fun hc => ?_)⟩
    obtain ⟨b,hb⟩ := hc.field (f := ("authority_context",.dict floatAct.authorityContext)) (by simp [CandidateAct.fields])
    cases hb
  · have hfails : sampleAuthority.authorize unlimitedPlatform sampleState { sampleEvidenceStore with failCommits := true }
        (sampleAct (py "n") .none) 1 200 =
          (.error (.evidenceError (py "evidence commit failure injected")),state,
            { sampleEvidenceStore with failCommits := true }) :=
      authorize_of_failCommits hadm htr he rfl
    rcases (outcomes hfails).1 with ⟨_,hsame,_⟩ | ⟨t,text,htext,hwrote,_⟩ | ⟨_,_,_,hok,_⟩
    · obtain ⟨_,_,hnonces,_⟩ := ProtectedState.transitionForAuthorization_ok htr
      have hnonce := congrFun (hnonces.symm.trans hsame.nonces) (py "n")
      rw [show (sampleAct (py "n") .none).nonce = py "n" from rfl,Function.update_self] at hnonce
      cases hnonce
    · exact ⟨t,_,state,hfails,hwrote⟩
    · cases hok
  · rcases (outcomes hauth).1 with ⟨⟨_,herror⟩,_⟩ | ⟨_,_,herror,_⟩ | ⟨t,e,_,hok,hwrote,_,hstore,htransition,hevidence⟩
    · cases herror
    · cases herror
    · cases hok
      exact ⟨t,e,cap,state,hstore ▸ hauth,hwrote,htransition,hevidence⟩

end ProtectedAuthority
end ExecutionFinality
