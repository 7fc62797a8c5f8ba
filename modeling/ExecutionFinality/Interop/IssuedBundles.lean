import ExecutionFinality.Interop.PortableBundles
import ExecutionFinality.Reference.Issuance

/-! `build_case`: what the authority issues is linked as a portable bundle. -/
namespace ExecutionFinality
open Utf8 (Bytes)
open KeyedEntries
open Platform
open Node (field)

/-! A portable value can be written down in both languages. -/

/-- The keys of the entries spell these texts, which are distinct. -/
def PyVal.KeyTexts (es : List (PyKey × PyVal)) (ts : List (List Char)) : Prop :=
  List.Forall₂ (fun e cs => ∃ s, e.1 = .str s ∧ s.scalars = some cs) es ts ∧ ts.Nodup

private theorem exists_keyTexts {nfc : Nfc} {es : List (PyKey × PyVal)} {kvs : List (List Char × Json)}
    (h : List.Forall₂ (PyVal.NormalEntry nfc true) es kvs) (hn : (keys kvs).Nodup) : ∃ ts, PyVal.KeyTexts es ts := by
  obtain ⟨ts,hts,hkeys⟩ : ∃ ts, List.Forall₂ (fun e cs => ∃ s, e.1 = .str s ∧ s.scalars = some cs) es ts ∧
      keys kvs = ts.map nfc.run := by
    refine forall₂_map_image.mp (List.forall₂_map_right_iff.mpr (h.imp fun e kv he => ?_))
    obtain ⟨⟨s,cs,hs,hcs,hrun⟩,_⟩ := he
    exact ⟨cs,⟨s,hs,hcs⟩,hrun.symm⟩
  exact ⟨ts,hts,(hkeys ▸ hn).of_map _⟩

private theorem keyTexts_fields {fs : List (String × PyVal)} (hn : (keys fs).Nodup) :
    PyVal.KeyTexts (fs.map fun f => (.str (py f.1),f.2)) (fs.map fun f => f.1.toList) := by
  constructor
  · simp only [List.forall₂_map_left_iff,List.forall₂_map_right_iff,List.forall₂_same]
    exact fun f _ => ⟨_,rfl,PyStr.scalars_ofChars _⟩
  · have h := hn.map (f := String.toList) fun _ _ => String.toList_inj.mp
    rwa [keys,List.map_map] at h

private theorem exists_members {κ β : Type} (Key : PyKey → κ → Prop) (Val : PyVal → β → Prop)
    (text : κ → List Char) (hkey : ∀ s cs, s.scalars = some cs → ∃ k, Key (.str s) k ∧ text k = cs)
    {es : List (PyKey × PyVal)} {ts : List (List Char)} (h : PyVal.KeyTexts es ts) (hv : ∀ e ∈ es, ∃ w, Val e.2 w) :
    ∃ fs, (keys fs).Nodup ∧ List.Forall₂ (fun e (f : κ × β) => Key e.1 f.1 ∧ Val e.2 f.2) es fs := by
  obtain ⟨hts,hn⟩ := h
  obtain ⟨fs,hfs,hkeys⟩ : ∃ fs, List.Forall₂ (fun e (f : κ × β) => Key e.1 f.1 ∧ Val e.2 f.2) es fs ∧
      ts = (keys fs).map text := by
    clear hn
    induction hts with
    | nil => exact ⟨[],.nil,rfl⟩
    | @cons e cs es ts h _ ih =>
      obtain ⟨s,hs,hcs⟩ := h
      obtain ⟨k,hk,rfl⟩ := hkey s cs hcs
      obtain ⟨w,hw⟩ := hv e (by simp)
      obtain ⟨fs,hfs,hkeys⟩ := ih fun e he => hv e (List.mem_cons_of_mem _ he)
      exact ⟨(k,w) :: fs,.cons ⟨hs ▸ hk,hw⟩ hfs,by simp [keys,← hkeys]⟩
  exact ⟨fs,(hkeys ▸ hn).of_map _,hfs⟩

/-- A language that can hold the constructors of the portable profile can hold every portable value. -/
private theorem exists_value {V : Type} {Val : PyVal → V → Prop} {nfc : Nfc} (none : ∃ v, Val .none v)
    (bool : ∀ b, ∃ v, Val (.bool b) v) (int : ∀ n, ∃ v, Val (.int n) v)
    (text : ∀ k s cs, PyStr.scalars s = some cs → ∃ v, Val (.text k s) v)
    (seq : ∀ k xs ys, List.Forall₂ Val xs ys → ∃ v, Val (.seq k xs) v)
    (mapping : ∀ k es ts, PyVal.KeyTexts es ts → (∀ e ∈ es, ∃ w, Val e.2 w) → ∃ v, Val (.mapping k es) v) (p : PyVal) :
    ∀ j, p.normalize nfc true = .ok j → ∃ v, Val p v := by
  induction p using PyVal.recOn_members with
  | none => exact fun _ _ => none
  | bool b => exact fun _ _ => bool b
  | int n => exact fun _ _ => int n
  | text k s =>
    intro j h
    cases PyVal.normal_iff.mpr h with
    | text hs => exact text k s _ hs
  | seq k xs ih =>
    intro j h
    cases PyVal.normal_iff.mpr h with
    | seq hf =>
      have item : ∀ x ∈ xs, ∃ v, Val x v := by
        intro x hx
        obtain ⟨j,_,hj⟩ := forall₂_of_mem_right hf.flip hx
        exact ih x hx j hj
      obtain ⟨ys,hys⟩ := exists_forall₂ item
      exact seq k xs ys hys
  | mapping k es ih =>
    intro j h
    cases PyVal.normal_iff.mpr h with
    | mapping hf hn =>
      obtain ⟨ts,hts⟩ := exists_keyTexts hf hn
      apply mapping k es ts hts
      intro e he
      obtain ⟨kv,_,_,hkv⟩ := forall₂_of_mem_right hf.flip he
      exact ih e he kv.2 hkv
  | bytes b =>
    intro j h
    cases PyVal.normal_iff.mpr h with
    | bytes _ hp => cases hp
  | float | other =>
    intro j h
    cases PyVal.normal_iff.mpr h

private theorem exists_goMap (k : MapKind) (es : List (PyKey × PyVal)) (ts : List (List Char))
    (h : PyVal.KeyTexts es ts) (hv : ∀ e ∈ es, ∃ g, GoValue e.2 g) : ∃ gs, GoValue (.mapping k es) (.map gs) := by
  obtain ⟨gs,hgs,hes⟩ := exists_members GoKey GoValue (fun b => (Utf8.decode b).getD [])
    (fun s cs hs => ⟨Utf8.encode cs,⟨s,cs,rfl,hs,rfl⟩,by simp⟩) h hv
  exact ⟨gs,hgs,gs,.refl _,goEntries_iff.mpr hes⟩

private theorem exists_nodeObject (k : MapKind) (es : List (PyKey × PyVal)) (ts : List (List Char))
    (h : PyVal.KeyTexts es ts) (hv : ∀ e ∈ es, ∃ v, NodeValue e.2 v) : ∃ gs, NodeValue (.mapping k es) (.object gs) := by
  have key (s : PyStr) (cs : List Char) (hs : s.scalars = some cs) :
      ∃ u, NodeKey (.str s) u ∧ Utf16.decode u = cs :=
    ⟨Utf16.encode cs,congrArg PyKey.str ((PyStr.eq_ofChars_of_scalars hs).trans (ofChars_eq_codePoints cs)),by simp⟩
  obtain ⟨gs,hgs,hes⟩ := exists_members NodeKey NodeValue Utf16.decode key h hv
  exact ⟨gs,hgs,gs,.refl _,nodeEntries_iff.mpr hes⟩

theorem Platform.Portable.exists_goValue {pf : Platform} {p : PyVal} (h : pf.Portable p) : ∃ g, GoValue p g := by
  obtain ⟨j,hj⟩ := h
  refine exists_value ⟨.nil,trivial⟩ (fun b => ⟨.bool b,rfl⟩) (fun n => ⟨.number _,rfl⟩)
    (fun k s cs hs => ⟨.string _,cs,hs,rfl⟩) ?_ ?_ p j hj
  · exact fun k xs ys h => ⟨.slice ys,goItems_iff.mpr h⟩
  · intro k es ts h hv
    obtain ⟨gs,hgs⟩ := exists_goMap k es ts h hv
    exact ⟨_,hgs⟩

theorem Platform.Portable.exists_nodeValue {pf : Platform} {p : PyVal} (h : pf.Portable p) : ∃ v, NodeValue p v := by
  obtain ⟨j,hj⟩ := h
  refine exists_value ⟨.null,trivial⟩ (fun b => ⟨.bool b,rfl⟩) (fun n => ⟨.number _,rfl⟩) ?_ ?_ ?_ p j hj
  · exact fun k s cs hs => ⟨.string (Utf16.encode cs),(PyStr.eq_ofChars_of_scalars hs).trans (ofChars_eq_codePoints cs)⟩
  · exact fun k xs ys h => ⟨.array ys,nodeItems_iff.mpr h⟩
  · intro k es ts h hv
    obtain ⟨gs,hgs⟩ := exists_nodeObject k es ts h hv
    exact ⟨_,hgs⟩

/-- Both languages can hold the value. -/
def PyVal.Writable (p : PyVal) : Prop := (∃ g, GoValue p g) ∧ ∃ v, NodeValue p v

theorem Platform.Portable.writable {pf : Platform} {p : PyVal} (h : pf.Portable p) : p.Writable :=
  ⟨h.exists_goValue,h.exists_nodeValue⟩

theorem writable_text (k : TextKind) {s : PyStr} (h : s.IsText) : (PyVal.text k s).Writable := by
  obtain ⟨cs,hs⟩ := h
  exact ⟨⟨.string _,cs,hs,rfl⟩,.string (Utf16.encode cs),
    (PyStr.eq_ofChars_of_scalars hs).trans (ofChars_eq_codePoints cs)⟩

theorem writable_fields (k : MapKind) {fs : List (String × PyVal)} (hn : (keys fs).Nodup)
    (h : ∀ f ∈ fs, f.2.Writable) :
    (∃ gs, GoValue (.fields k fs) (.map gs)) ∧ ∃ gs, NodeValue (.fields k fs) (.object gs) :=
  ⟨exists_goMap k _ _ (keyTexts_fields hn) (by simpa only [List.forall_mem_map] using fun f hf => (h f hf).1),
    exists_nodeObject k _ _ (keyTexts_fields hn) (by simpa only [List.forall_mem_map] using fun f hf => (h f hf).2)⟩

theorem writable_record (k : MapKind) {fs : List (String × PyVal)} (hn : (keys fs).Nodup)
    (h : ∀ f ∈ fs, f.2.Writable) : (PyVal.fields k fs).Writable := by
  obtain ⟨⟨gs,hgs⟩,ws,hws⟩ := writable_fields k hn h
  exact ⟨⟨_,hgs⟩,_,hws⟩

/-! What the reference signs of plain records is in the portable profile. -/

theorem PyVal.Plain.portable {pf : Platform} {v : PyVal} (h : v.Plain) (ha : pf.Accepts v) (hs : v.SafeInts) :
    pf.Portable v := by
  cases v with
  | text k s => exact portable_text ha
  | int n => exact portable_int.mpr (by simpa only [PyVal.SafeInts] using hs)
  | seq k xs =>
    apply portable_seq
    intro x hx
    obtain ⟨_,_,rfl⟩ := h x hx
    exact portable_text (accepts_seq.mp ha _ hx)
  | _ => exact h.elim

theorem Platform.Accepts.portable_record {pf : Platform} {k : MapKind} {fs : List (String × PyVal)}
    (h : pf.Accepts (.fields k fs)) (hs : ∀ f ∈ fs, f.2.SafeInts) (hp : ∀ f ∈ fs, f.2.Plain ∨ pf.Portable f.2) :
    pf.Portable (.fields k fs) :=
  h.portable_fields fun f hf => (hp f hf).elim (fun h' => h'.portable (h.field hf) (hs f hf)) id

section
variable {pf : Node.Platform} {v : PyVal}

theorem Platform.Portable.canonicalBytes (h : pf.Portable v) {b : Bytes} (hb : pf.canonicalBytes v = .ok b) :
    pf.portableCanonicalBytes v = .ok b := by
  obtain ⟨j,hj⟩ := h
  obtain ⟨i,hi,hprints,rfl⟩ := canonicalBytes_eq_ok.mp hb
  cases Except.ok.inj (hi.symm.trans (PyVal.normalize_portable v j hj).1)
  exact portableCanonicalBytes_eq_ok.mpr ⟨_,hj,hprints,rfl⟩

theorem Platform.Portable.digest (h : pf.Portable v) {d : PyStr} (hd : pf.sha256Hex v = .ok d) :
    pf.PortableDigest v d := by
  obtain ⟨b,hb,rfl⟩ := sha256Hex_eq_ok.mp hd
  exact ⟨b,h.canonicalBytes hb,rfl⟩

theorem Platform.Portable.mac (h : pf.Portable v) {key : Bytes} {kid m : PyStr}
    (hm : (Authenticator.hmac key kid).sign pf.toPlatform v = .ok m) : pf.PortableMac key v m := by
  simp only [Authenticator.sign,CheckChains.bind_eq_ok,CheckChains.pure_eq_ok] at hm
  obtain ⟨b,hb,rfl⟩ := hm
  exact ⟨b,h.canonicalBytes hb,rfl⟩

end

theorem accepts_of_sha256Hex {pf : Platform} {v : PyVal} {d : PyStr} (h : pf.sha256Hex v = .ok d) : pf.Accepts v :=
  exists_sha256Hex.mp ⟨d,h⟩

/-- The digits that `bytes.hex()` writes are read back as the bytes. -/
theorem hexPrefix_hexChars (key : Bytes) : Node.IsHex (Utf16.encode (hexChars key)) ∧
    Node.hexPrefix (Utf16.encode (hexChars key)) = key := by
  have digits : ∀ d < 16, (Utf16.encodeChar (Nat.digitChar d)).map (fun u => (Node.hexDigit? u,decide (u.toNat < 128))) =
      [(some d,true)] := by decide
  have digit (d : Nat) (hd : d < 16) : ∃ u, Utf16.encodeChar (Nat.digitChar d) = [u] ∧ Node.hexDigit? u = some d ∧
      u.toNat < 128 := by
    obtain ⟨u,hu,hdu⟩ := List.map_eq_singleton_iff.mp (digits d hd)
    exact ⟨u,hu,congrArg Prod.fst hdu,of_decide_eq_true (congrArg Prod.snd hdu)⟩
  induction key with
  | nil => exact ⟨⟨rfl,by simp [hexChars]⟩,rfl⟩
  | cons x key ih =>
    have hx := x.toNat_lt
    obtain ⟨u,hu,hdu,hau⟩ := digit (x.toNat / 16) (by omega)
    obtain ⟨w,hw,hdw,haw⟩ := digit (x.toNat % 16) (by omega)
    have he : Utf16.encode (hexChars (x :: key)) = u :: w :: Utf16.encode (hexChars key) := by
      change Utf16.encode (_ :: _ :: hexChars key) = _
      rw [Utf16.encode_cons,Utf16.encode_cons,hu,hw]
      rfl
    obtain ⟨⟨heven,hdigits⟩,hread⟩ := ih
    rw [he]
    refine ⟨⟨by simp only [List.length_cons]; omega,?_⟩,?_⟩
    · simp only [List.forall_mem_cons,hdu,hdw,hau,haw,Option.isSome_some,true_and]
      exact hdigits
    · have hjoin : 16 * (x.toNat / 16) + x.toNat % 16 = x.toNat := by omega
      simp only [Node.hexPrefix,hdu,hdw,hjoin,hread,UInt8.ofNat_toNat]

namespace Bundle

/-- `b` is what `build_case` writes after `authorize` has returned `cap`. -/
structure Exports (pf : Platform) (key : Bytes) (supportedScopes : List PyStr) (state : ProtectedState)
    (store : EvidenceStore) (c : CandidateAct) (cap : Capability) (b : Bundle) : Prop where
  authorityKeyHex : b.authorityKeyHex = hexChars key
  sinkId : b.sinkId = c.sinkId
  boundaryId : b.boundaryId = c.boundaryId
  policyEpoch : b.policyEpoch = c.policyEpoch
  supportedScopes : b.supportedScopes = supportedScopes
  effectClass : b.effectClass = c.effectClass
  candidate : b.candidate = c
  hcad : buildHcad pf c (some b.sinkId) (some b.boundaryId) = .ok b.hcad
  transition : state.transitions cap.transitionId = some b.transition
  evidence : store.records cap.evidenceId = some b.evidence
  capability : b.capability = cap

/-- The records of the bundle are those of one authorization at `now`. -/
structure Issued (pf : Platform) (a : ProtectedAuthority) (now : Int) (b : Bundle) : Prop where
  descriptor : buildHcad pf b.candidate none none = .ok b.hcad
  admitted : (a.policy.validate b.candidate now).1 = true
  transition : ProtectedState.Reserves pf b.candidate b.transition
  evidence : ProtectedAuthority.EvidenceFor pf a b.hcad b.candidate b.transition now b.evidence
  capability : ProtectedAuthority.CapabilityFor pf a b.hcad b.candidate b.transition b.evidence now b.capability

/-- Every integer of the bundle is safe in every record of it. -/
theorem safe_record {b : Bundle} (h : b.value.SafeInts) (name : String) {k : MapKind} {fs : List (String × PyVal)}
    (hb : (name,.fields k fs) ∈ b.fields) : ∀ f ∈ fs, f.2.SafeInts :=
  safeInts_fields.mp (safeInts_fields.mp h _ hb)

end Bundle

theorem CandidateAct.plain {pf : Platform} {c : CandidateAct} (hp : pf.Portable c.payload)
    (hctx : pf.Portable (.dict c.authorityContext)) : ∀ f ∈ c.fields, f.2.Plain ∨ pf.Portable f.2 := by
  simp [CandidateAct.fields,PyVal.Plain,hp,hctx]

section
variable {pf : Node.Platform} {a : ProtectedAuthority} {key : Bytes} {kid : PyStr} {state state' : ProtectedState}
  {store store' : EvidenceStore} {c : CandidateAct} {cap : Capability} {cost now : Int} {scopes : List PyStr} {b : Bundle}

private theorem buildHcad_eq_ok {pf : Platform} {sinkId boundaryId : Option PyStr} {d : HCAD}
    (h : buildHcad pf c sinkId boundaryId = .ok d) : pf.sha256Hex c.payload = .ok d.payloadDigest ∧
      d = { actId := c.actId
            actClass := c.actClass
            effectClass := c.effectClass
            source := c.source
            destination := c.destination
            purpose := c.purpose
            jurisdiction := c.jurisdiction
            policyEpoch := c.policyEpoch
            nonce := c.nonce
            issuedAtNs := c.issuedAtNs
            freshnessNs := c.freshnessNs
            scope := c.scope
            runtimeEvidenceDigest := c.runtimeEvidenceDigest
            schema := py "finality-hcad/v1"
            sinkId := sinkId.getD c.sinkId
            boundaryId := boundaryId.getD c.boundaryId
            payloadDigest := d.payloadDigest } := by
  simp only [buildHcad,CheckChains.bind_eq_ok,CheckChains.pure_eq_ok] at h
  obtain ⟨pd,hpd,rfl⟩ := h
  exact ⟨hpd,rfl⟩

variable (pf key scopes) in
/-- `build_case` finds the records of every successful authorization. -/
theorem exists_exports (h : a.authorize pf.toPlatform state store c cost now = (.ok cap,state',store')) :
    ∃ b, Bundle.Exports pf.toPlatform key scopes state' store' c cap b := by
  obtain ⟨d,t,e,hadm,htr,he,hcommit,hcap⟩ := ProtectedAuthority.authorize_eq_ok.mp h
  obtain ⟨hd,-⟩ := ProtectedAuthority.admission_eq_ok.mp hadm
  obtain ⟨-,-,-,htransitions⟩ := ProtectedState.transitionForAuthorization_ok htr
  obtain ⟨-,-,-,rfl⟩ := EvidenceStore.commit_eq_ok.mp hcommit
  have hkeys : e.keyId = cap.keyId := he.keyId.trans hcap.keyId.symm
  refine ⟨⟨hexChars key,c.sinkId,c.boundaryId,c.policyEpoch,scopes,c.effectClass,c,d,t,e,cap,hkeys⟩,rfl,rfl,rfl,rfl,rfl,rfl,
    rfl,hd,?_,?_,rfl⟩
  · rw [htransitions,hcap.transitionId,Function.update_self]
  · simp [hcap.evidenceId]

theorem Bundle.Exports.issued (hb : Bundle.Exports pf.toPlatform key scopes state' store' c cap b)
    (h : a.authorize pf.toPlatform state store c cost now = (.ok cap,state',store')) : b.Issued pf.toPlatform a now := by
  obtain ⟨d,t,e,hadm,htr,he,hcommit,hcap⟩ := ProtectedAuthority.authorize_eq_ok.mp h
  obtain ⟨hd,hpolicy⟩ := ProtectedAuthority.admission_eq_ok.mp hadm
  obtain ⟨-,hr,-,htransitions⟩ := ProtectedState.transitionForAuthorization_ok htr
  obtain ⟨-,-,-,hrecords⟩ := EvidenceStore.commit_eq_ok.mp hcommit
  have ht' := hb.transition
  have he' := hb.evidence
  have hd' := hb.hcad
  rw [htransitions,hcap.transitionId,Function.update_self,Option.some.injEq] at ht'
  rw [hrecords,hcap.evidenceId] at he'
  dsimp only at he'
  rw [Function.update_self,Option.some.injEq] at he'
  rw [hb.sinkId,hb.boundaryId] at hd'
  cases Except.ok.inj (hd.symm.trans hd')
  subst ht' he'
  cases hb.capability
  cases hb.candidate
  exact ⟨hd,hpolicy,hr,he,hcap⟩

/-- Evidence of the authority is in the portable profile, in every form that is digested or signed. -/
theorem portable_evidence {d : HCAD} {t : StateTransition} {e : ValidationEvidence}
    (he : ProtectedAuthority.EvidenceFor pf.toPlatform a d c t now e) (hs : ∀ f ∈ e.fields, f.2.SafeInts) :
    pf.Portable e.unsigned ∧ pf.Portable (.fields .dict e.core) ∧ ∀ f ∈ e.fields, pf.Portable f.2 := by
  have hu : pf.Accepts e.unsigned := (Authenticator.exists_sign.mp ⟨_,he.signature⟩).2
  have hsig : pf.Portable (.str e.signature) :=
    portable_text (accepts_text.mpr (Authenticator.isHex_of_sign he.signature).scalars)
  have hall : ∀ f ∈ ("evidence_id",PyVal.str e.evidenceId) :: e.core, pf.Portable f.2 := by
    intro f hf
    have hsafe : f.2.SafeInts := by
      simp only [ValidationEvidence.fields,List.forall_mem_cons] at hs
      revert f
      simp only [ValidationEvidence.core,List.forall_mem_cons]
      simp only [hs,List.not_mem_nil,IsEmpty.forall_iff,implies_true,and_self]
    exact (e.plain f hf).portable (Accepts.field hu hf) hsafe
  refine ⟨Accepts.portable_fields hu hall,(accepts_of_sha256Hex he.evidenceId).portable_fields
    fun f hf => hall f (List.mem_cons_of_mem _ hf),?_⟩
  simp only [ValidationEvidence.core,List.forall_mem_cons] at hall
  simp only [ValidationEvidence.fields,List.forall_mem_cons]
  simp only [hall,hsig,List.not_mem_nil,IsEmpty.forall_iff,implies_true,and_self]

theorem portable_capability {d : HCAD} {t : StateTransition} {e : ValidationEvidence}
    (hcap : ProtectedAuthority.CapabilityFor pf.toPlatform a d c t e now cap) (hs : ∀ f ∈ cap.fields, f.2.SafeInts) :
    pf.Portable cap.unsigned ∧ pf.Portable (.fields .dict cap.core) ∧ ∀ f ∈ cap.fields, pf.Portable f.2 := by
  have hu : pf.Accepts cap.unsigned := (Authenticator.exists_sign.mp ⟨_,hcap.signature⟩).2
  have hsig : pf.Portable (.str cap.signature) :=
    portable_text (accepts_text.mpr (Authenticator.isHex_of_sign hcap.signature).scalars)
  have hall : ∀ f ∈ ("capability_id",PyVal.str cap.capabilityId) :: cap.core, pf.Portable f.2 := by
    intro f hf
    have hsafe : f.2.SafeInts := by
      simp only [Capability.fields,List.forall_mem_cons] at hs
      revert f
      simp only [Capability.core,List.forall_mem_cons]
      simp only [hs,List.not_mem_nil,IsEmpty.forall_iff,implies_true,and_self]
    exact (cap.plain f hf).portable (Accepts.field hu hf) hsafe
  refine ⟨Accepts.portable_fields hu hall,(accepts_of_sha256Hex hcap.capabilityId).portable_fields
    fun f hf => hall f (List.mem_cons_of_mem _ hf),?_⟩
  simp only [Capability.core,List.forall_mem_cons] at hall
  simp only [Capability.fields,List.forall_mem_cons]
  simp only [hall,hsig,List.not_mem_nil,IsEmpty.forall_iff,implies_true,and_self]

theorem portable_transition {t : StateTransition} (ht : ProtectedState.Reserves pf.toPlatform c t) {cd : PyStr}
    (hcd : c.digest pf.toPlatform = .ok cd) (hs : ∀ f ∈ t.fields, f.2.SafeInts) :
    pf.PortableDigest (.fields .dict (ProtectedState.transitionCore t cd)) t.transitionId ∧
      ∀ f ∈ t.fields, pf.Portable f.2 := by
  obtain ⟨_,hcd',hid⟩ := ht.transitionId
  cases Except.ok.inj (hcd.symm.trans hcd')
  have ha := accepts_of_sha256Hex hid
  have htid : pf.Portable (.str t.transitionId) := portable_text (accepts_text.mpr (isHex_of_sha256Hex hid).scalars)
  have hall : ∀ f ∈ ProtectedState.transitionCore t cd, pf.Portable f.2 := by
    intro f hf
    have hsafe : f.2.SafeInts := by
      simp only [StateTransition.fields,List.forall_mem_cons,PyVal.SafeInts] at hs
      revert f
      simp only [ProtectedState.transitionCore,List.forall_mem_cons,PyVal.SafeInts]
      simp only [hs,List.not_mem_nil,IsEmpty.forall_iff,implies_true,and_self]
    exact (ProtectedState.plain_transitionCore t cd f hf).portable (ha.field hf) hsafe
  refine ⟨(ha.portable_fields hall).digest hid,?_⟩
  simp only [ProtectedState.transitionCore,List.forall_mem_cons] at hall
  simp only [StateTransition.fields,List.forall_mem_cons]
  simp only [hall,htid,List.not_mem_nil,IsEmpty.forall_iff,implies_true,and_self]

/-- Every part of the bundle is in the portable profile. -/
structure Bundle.PortableParts (pf : Platform) (b : Bundle) : Prop where
  context : ∀ f ∈ b.contextFields, pf.Portable f.2
  candidate : pf.Portable b.candidate.value
  hcad : pf.Portable (.fields .dataclass b.hcad.fields)
  transition : ∀ f ∈ b.transition.fields, pf.Portable f.2
  evidence : ∀ f ∈ b.evidence.fields, pf.Portable f.2
  capability : ∀ f ∈ b.capability.fields, pf.Portable f.2

/-- A portable bundle can be written as JSON. -/
theorem Bundle.PortableParts.writable {pf : Platform} (h : b.PortableParts pf) :
    (∃ g, GoValue b.value (.map g)) ∧ ∃ v, NodeValue b.value (.object v) := by
  have record (k : MapKind) {fs : List (String × PyVal)} (hn : (keys fs).Nodup) (hp : ∀ f ∈ fs, pf.Portable f.2) :
      (PyVal.fields k fs).Writable := writable_record k hn fun f hf => (hp f hf).writable
  have text (s : List Char) : (PyVal.str (PyStr.ofChars s)).Writable := writable_text _ ⟨s,PyStr.scalars_ofChars s⟩
  apply writable_fields _ (by simp [keys,Bundle.fields])
  simp only [Bundle.fields,List.forall_mem_cons]
  exact ⟨text _,text _,record _ (by simp [keys,Bundle.contextFields]) h.context,h.candidate.writable,h.hcad.writable,
    record _ (by simp [keys,StateTransition.fields]) h.transition,
    record _ (by simp [keys,ValidationEvidence.fields]) h.evidence,
    record _ (by simp [keys,Capability.fields]) h.capability,by simp⟩

section
variable (hi : b.Issued pf.toPlatform a now) (hs : b.value.SafeInts)
include hi hs

private theorem portable_candidate (hp : pf.Portable b.candidate.payload)
    (hctx : pf.Portable (.dict b.candidate.authorityContext)) : pf.Portable b.candidate.value :=
  (accepts_of_sha256Hex hi.capability.candidateDigest).portable_record
    (Bundle.safe_record hs "candidate" (k := .dataclass) (by simp [Bundle.fields,CandidateAct.value]))
    (CandidateAct.plain hp hctx)

private theorem portable_hcad : pf.Portable (.fields .dataclass b.hcad.fields) :=
  (accepts_of_sha256Hex hi.capability.descriptorDigest).portable_record
    (Bundle.safe_record hs "hcad" (k := .dataclass) (by simp [Bundle.fields]))
    fun f hf => .inl (b.hcad.plain f hf)

/-- The records of an authorization are linked in the portable profile. -/
theorem issued_links (ha : a.authenticator = .hmac key kid) (hb : Bundle.Exports pf.toPlatform key scopes state' store' c cap b)
    (hscopes : ∀ x ∈ c.scope, x ∈ scopes) (hp : pf.Portable c.payload) (hctx : pf.Portable (.dict c.authorityContext)) :
    b.Links pf := by
  have hkey : b.authorityKey = key := by
    rw [Bundle.authorityKey,hb.authorityKeyHex]
    exact (hexPrefix_hexChars key).2
  obtain ⟨hpayload,hdescriptor⟩ := buildHcad_eq_ok hi.descriptor
  have hbdescriptor : b.descriptor = b.hcad := by
    rw [Bundle.descriptor,hb.sinkId,hb.boundaryId,← hb.candidate]
    exact hdescriptor.symm
  rw [← hb.candidate] at hscopes hp hctx
  have hsinkId : b.capability.sinkId = b.sinkId := by
    rw [hi.capability.sinkId,hb.candidate,hb.sinkId]
  have hboundaryId : b.capability.boundaryId = b.boundaryId := by
    rw [hi.capability.boundaryId,hb.candidate,hb.boundaryId]
  have hepoch : b.capability.policyEpoch = b.policyEpoch := by
    rw [hi.capability.policyEpoch,hb.candidate,hb.policyEpoch]
  obtain ⟨hunsigned,hcore,-⟩ := portable_evidence hi.evidence
    (Bundle.safe_record hs "validation_evidence" (k := .dict) (by simp [Bundle.fields]))
  obtain ⟨hunsigned',hcore',-⟩ := portable_capability hi.capability
    (Bundle.safe_record hs "capability" (k := .dict) (by simp [Bundle.fields]))
  obtain ⟨htid,-⟩ := portable_transition hi.transition hi.capability.candidateDigest
    (Bundle.safe_record hs "state_transition" (k := .dict) (by simp [Bundle.fields]))
  have hhcad := portable_hcad hi hs
  have hcd : b.evidence.candidateDigest = b.capability.candidateDigest :=
    Except.ok.inj (hi.evidence.candidateDigest.symm.trans hi.capability.candidateDigest)
  have hdd : b.evidence.descriptorDigest = b.capability.descriptorDigest :=
    Except.ok.inj (hi.evidence.descriptorDigest.symm.trans hi.capability.descriptorDigest)
  have htransition := hi.transition
  refine ⟨⟨Policy.nonEffective_of_validate hi.admitted,(portable_candidate hi hs hp hctx).digest hi.capability.candidateDigest,
    hcd,hp.digest hpayload,?_,hdd,hhcad.digest hi.capability.descriptorDigest⟩,
    ⟨htid,hi.capability.transitionId,hi.evidence.transitionId,htransition.version,htransition.quota,htransition.budget⟩,
    ⟨?_,hcore.digest hi.evidence.evidenceId,hi.evidence.decision⟩,
    ⟨?_,hcore'.digest hi.capability.capabilityId,hsinkId,hboundaryId,hepoch,hi.capability.nonce,
      hi.capability.authorityId.trans hi.evidence.authorityId.symm,hi.capability.scope,?_,?_,?_⟩⟩
  · rw [hbdescriptor]
    exact hhcad.digest hi.capability.descriptorDigest
  · have hsignature := hi.evidence.signature
    rw [ha] at hsignature
    exact hkey ▸ hunsigned.mac hsignature
  · have hsignature := hi.capability.signature
    rw [ha] at hsignature
    exact hkey ▸ hunsigned'.mac hsignature
  · rw [hi.capability.scope,hb.supportedScopes]
    exact hscopes
  · rw [hb.effectClass,hb.candidate]
  · rw [hi.capability.expiresAtNs]
    exact min_le_left _ _

/-- The exported bundle is portable when the supported scopes are text. -/
theorem portableParts_of_exports (hb : Bundle.Exports pf.toPlatform key scopes state' store' c cap b)
    (htexts : ∀ x ∈ scopes, x.IsText) (hp : pf.Portable c.payload) (hctx : pf.Portable (.dict c.authorityContext)) :
    b.PortableParts pf.toPlatform := by
  rw [← hb.candidate] at hp hctx
  have hcandidate (f : String × PyVal) := (accepts_of_sha256Hex hi.capability.candidateDigest).field (f := f)
  have hsafe := Bundle.safe_record hs "sink_context" (show ("sink_context",PyVal.fields .dict b.contextFields) ∈ b.fields by
    simp [Bundle.fields])
  have text (name : String) (s : PyStr) (hf : (name,PyVal.str s) ∈ b.candidate.fields) : pf.Portable (.str s) :=
    portable_text (hcandidate _ hf)
  refine ⟨?_,portable_candidate hi hs hp hctx,portable_hcad hi hs,(portable_transition hi.transition
    hi.capability.candidateDigest (Bundle.safe_record hs "state_transition" (k := .dict)
      (by simp [Bundle.fields]))).2,(portable_evidence hi.evidence (Bundle.safe_record hs "validation_evidence"
      (k := .dict) (by simp [Bundle.fields]))).2.2,(portable_capability hi.capability (Bundle.safe_record hs
      "capability" (k := .dict) (by simp [Bundle.fields]))).2.2⟩
  simp only [Bundle.contextFields,List.forall_mem_cons,PyVal.SafeInts] at hsafe
  simp only [Bundle.contextFields,List.forall_mem_cons,hb.sinkId,hb.boundaryId,hb.effectClass,hb.supportedScopes,
    ← hb.candidate]
  refine ⟨text "sink_id" _ (by simp [CandidateAct.fields]),text "boundary_id" _ (by simp [CandidateAct.fields]),
    portable_int.mpr hsafe.2.2.1,portable_seq ?_,text "effect_class" _ (by simp [CandidateAct.fields]),by simp⟩
  simp only [List.forall_mem_map]
  exact fun x hx => portable_text (accepts_text.mpr (htexts x hx))

end

/-- Whatever an authority with an HMAC key issues, both portable verifiers pass its bundle,
in every order of the fields. -/
theorem issued_bundles_pass (ha : a.authenticator = .hmac key kid)
    (h : a.authorize pf.toPlatform state store c cost now = (.ok cap,state',store')) (hscopes : ∀ x ∈ c.scope, x ∈ scopes)
    (hp : pf.Portable c.payload) (hctx : pf.Portable (.dict c.authorityContext)) :
    (∃ b, Bundle.Exports pf.toPlatform key scopes state' store' c cap b) ∧
    ∀ b, Bundle.Exports pf.toPlatform key scopes state' store' c cap b → b.value.SafeInts →
      ((∀ x ∈ scopes, x.IsText) → (∃ g, GoValue b.value (.map g)) ∧ ∃ v, NodeValue b.value (.object v)) ∧
      ∀ g v, GoValue b.value (.map g) → NodeValue b.value v →
        (∃ out, Go.finalityverify pf.toPlatform g = .ok out) ∧ ∃ out, Node.finalityVerify pf v = .ok out := by
  refine ⟨exists_exports _ _ _ h,fun b hb hs => ?_⟩
  have hi := hb.issued h
  refine ⟨fun htexts => (portableParts_of_exports hi hs hb htexts hp hctx).writable,fun g v hg hv => ?_⟩
  have hlinked : Node.Linked pf v := (linked_iff hv hs).mpr (issued_links hi hs ha hb hscopes hp hctx)
  have htyped : Node.Typed v := typed_of_bundle hv (by rw [hb.authorityKeyHex]; exact (hexPrefix_hexChars key).1)
  exact ⟨(finalityverify_ok ⟨_,hg,hv,hs⟩).mpr ⟨htyped,hlinked⟩,Node.finalityVerify_ok.mpr ⟨present_of_bundle hv,hlinked⟩⟩

/-- The integers of an exported bundle are those of the candidate, the clock and the counters. -/
theorem Bundle.Exports.safeInts (hb : Bundle.Exports pf.toPlatform key scopes state' store' c cap b)
    (h : a.authorize pf.toPlatform state store c cost now = (.ok cap,state',store')) (hc : c.value.SafeInts)
    (hsource : ∀ n ∈ [(state.getSource c.source).1.version,(state.getSource c.source).1.version + 1,
      (state.getSource c.source).1.quota,(state.getSource c.source).1.quota - 1,(state.getSource c.source).1.budget,
      (state.getSource c.source).1.budget - cost], -maxSafeInteger ≤ n ∧ n ≤ maxSafeInteger)
    (hnow : -maxSafeInteger ≤ now ∧ now ≤ maxSafeInteger)
    (hexpires : -maxSafeInteger ≤ min (c.issuedAtNs + c.freshnessNs) (now + a.capabilityTtlNs) ∧
      min (c.issuedAtNs + c.freshnessNs) (now + a.capabilityTtlNs) ≤ maxSafeInteger) : b.value.SafeInts := by
  have hi := hb.issued h
  obtain ⟨_,t,_,_,htr,_,_,hcap⟩ := ProtectedAuthority.authorize_eq_ok.mp h
  obtain ⟨-,-,-,-,hnext,rfl⟩ := ProtectedState.transitionForAuthorization_eq_ok.mp htr
  have ht : b.transition = t := by
    have ht := hb.transition
    rw [hcap.transitionId] at ht
    exact Option.some.inj (ht.symm.trans (Function.update_self ..))
  obtain ⟨hbv,hbq,hbb⟩ := ProtectedState.nextTransition_before hnext
  obtain ⟨hav,haq,hab⟩ := ProtectedState.nextTransition_after hnext
  simp only [List.forall_mem_cons] at hsource
  have hfields : ∀ f ∈ c.fields, f.2.SafeInts := safeInts_fields.mp hc
  simp only [CandidateAct.fields,List.forall_mem_cons,PyVal.SafeInts] at hfields
  simp only [Bundle.value,safeInts_fields,Bundle.fields,List.forall_mem_cons]
  have hstrs (xs : List PyStr) : PyVal.SafeItems (xs.map .str) := by simp [safeItems_iff,PyVal.SafeInts]
  obtain ⟨-,hdescriptor⟩ := buildHcad_eq_ok (hb.candidate ▸ hi.descriptor)
  refine ⟨trivial,trivial,?_,?_,?_,?_,?_,?_,by simp⟩
  · simp only [Bundle.contextFields,List.forall_mem_cons,PyVal.SafeInts,PyVal.strs,hb.policyEpoch,hstrs,hfields]
    simp
  · rw [hb.candidate]
    exact hc
  · rw [hdescriptor]
    simp only [HCAD.fields,List.forall_mem_cons,PyVal.SafeInts,hstrs,hfields]
    simp
  · rw [ht]
    simp only [StateTransition.fields,List.forall_mem_cons,PyVal.SafeInts,hbv,hbq,hbb,hav,haq,hab,hsource]
    simp only [← ht,hi.transition.policyEpoch,hb.candidate,hfields]
    simp
  · simp only [ValidationEvidence.fields,List.forall_mem_cons,PyVal.SafeInts,PyVal.strs,hstrs,
      hi.evidence.policyEpoch,hi.evidence.committedAtNs,hb.candidate,hfields,hnow]
    simp
  · simp only [Capability.fields,List.forall_mem_cons,PyVal.SafeInts,PyVal.strs,hstrs,
      hi.capability.policyEpoch,hi.capability.issuedAtNs,hi.capability.expiresAtNs,hb.candidate,hfields,hnow,hexpires]
    simp

end

/-! A closed instance: the sample authority with an HMAC key, and an act whose nonce and
payload are spelled with U+212A. -/

def sampleHmacAuthority : ProtectedAuthority := { sampleAuthority with authenticator := .hmac [1] (py "authority-key") }

def sampleHmacStore : EvidenceStore where
  authenticator := sampleHmacAuthority.authenticator

theorem sampleHmac_admissible (nonce : PyStr) (payload : PyVal) (hn : nonce.IsText)
    (hp : samplePlatform.Accepts payload) : Admissible samplePlatform sampleHmacAuthority sampleState sampleHmacStore
      (sampleAct nonce payload) 1 200 := by
  have h := sampleAct_admissible nonce payload hn hp
  have paired : Authenticator.Paired samplePlatform sampleHmacAuthority.authenticator := by
    rintro k ⟨⟩
    rfl
  exact {
    accepted := h.accepted
    policy := h.policy
    costPositive := h.costPositive
    nonce := h.nonce
    quota := h.quota
    budget := h.budget
    source := h.source
    authorityId := h.authorityId
    keyId := h.keyId
    canSign := fun _ _ => (nomatch ·)
    trusts := paired.trusts
    commits := rfl
    evidence := fun _ _ _ _ => rfl
    nowPrints := h.nowPrints
    expiresPrints := h.expiresPrints }

theorem sampleAct_safeInts (nonce : PyStr) {payload : PyVal} (hp : payload.SafeInts) :
    (sampleAct nonce payload).value.SafeInts := by
  rw [CandidateAct.value,safeInts_fields]
  simp only [CandidateAct.fields,sampleAct,List.forall_mem_cons,List.map_cons,List.map_nil,PyVal.SafeInts,PyVal.SafeItems,
    PyVal.SafeEntries,hp]
  simp [maxSafeInteger]

/-- The bundle of an authorization at time 200 -/
theorem exists_sampleBundle (nonce : PyStr) (hn : nonce.IsText) : ∃ b : Bundle, b.authorityKeyHex = hexChars [1] ∧
    b.candidate = sampleAct nonce .none ∧ b.candidate.sinkId = b.sinkId ∧ b.candidate.boundaryId = b.boundaryId ∧
    b.candidate.policyEpoch = b.policyEpoch ∧ b.Issued samplePlatform sampleHmacAuthority 200 ∧
    b.PortableParts samplePlatform ∧ b.value.SafeInts ∧ b.Links Node.samplePlatform := by
  have payload : samplePlatform.Portable .none := ⟨_,rfl⟩
  have context : samplePlatform.Portable (.dict [(.str (py "presenter_key_id"),.str (py "presenter"))]) := ⟨_,rfl⟩
  obtain ⟨cap,state',store',h⟩ := (sampleHmac_admissible nonce .none hn
    (accepts_iff.mpr ⟨_,rfl,by simp [Json.ints]⟩)).authorize sampleNfc_fixesAscii
  obtain ⟨b,hb⟩ := exists_exports Node.samplePlatform [1] [py "pay"] h
  have hi := hb.issued h
  have hs : b.value.SafeInts := hb.safeInts h (sampleAct_safeInts _ trivial)
    (show ∀ n ∈ [(0 : Int),0 + 1,1000,1000 - 1,1000,1000 - 1], -maxSafeInteger ≤ n ∧ n ≤ maxSafeInteger by decide)
    (by decide) (show -maxSafeInteger ≤ min ((100 : Int) + 1000) (200 + 5000000000) ∧
      min ((100 : Int) + 1000) (200 + 5000000000) ≤ maxSafeInteger by decide)
  exact ⟨b,hb.authorityKeyHex,hb.candidate,by rw [hb.candidate,hb.sinkId],by rw [hb.candidate,hb.boundaryId],
    by rw [hb.candidate,hb.policyEpoch],hi,portableParts_of_exports hi hs hb
    (fun _ hx => List.mem_singleton.mp hx ▸ py_isText _) payload context,hs,issued_links hi hs rfl hb (fun _ hx => hx) payload
    context⟩

theorem issued_bundles_pass_sample : ∃ (b : Bundle) (g : _) (v : _), b.candidate.nonce = py "\u212A" ∧ GoValue b.value (.map g) ∧
    NodeValue b.value v ∧ (∃ out, Go.finalityverify samplePlatform g = .ok out) ∧
    ∃ out, Node.finalityVerify Node.samplePlatform v = .ok out := by
  have payload : samplePlatform.Portable (.str (py "\u212A")) := portable_text (accepts_text.mpr (py_isText _))
  have context : samplePlatform.Portable (.dict [(.str (py "presenter_key_id"),.str (py "presenter"))]) := ⟨_,rfl⟩
  obtain ⟨cap,state',store',h⟩ := (sampleHmac_admissible (py "\u212A") (.str (py "\u212A")) (py_isText _)
    (accepts_text.mpr (py_isText _))).authorize sampleNfc_fixesAscii
  change sampleHmacAuthority.authorize Node.samplePlatform.toPlatform _ _ _ _ _ = _ at h
  obtain ⟨⟨b,hb⟩,hall⟩ := issued_bundles_pass
    (show sampleHmacAuthority.authenticator = .hmac [1] (py "authority-key") from rfl) h
    (show ∀ x ∈ (sampleAct (py "\u212A") (.str (py "\u212A"))).scope, x ∈ [py "pay"] from fun _ hx => hx) payload
    context
  have hs : b.value.SafeInts := hb.safeInts h (sampleAct_safeInts _ trivial) (by decide) (by decide) (by decide)
  obtain ⟨hwritable,hpass⟩ := hall b hb hs
  obtain ⟨⟨g,hg⟩,v,hv⟩ := hwritable fun _ hx => List.mem_singleton.mp hx ▸ py_isText _
  exact ⟨b,g,_,by rw [hb.candidate]; rfl,hg,hv,hpass g _ hg hv⟩

end ExecutionFinality
