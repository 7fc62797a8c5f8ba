import ExecutionFinality.Interop.IssuedBundles
import ExecutionFinality.Interop.WrittenTexts

/-! The files of `build_case`: the verifiers read the values that were written, and pass them. -/
namespace ExecutionFinality
open Utf8 (Bytes)
open KeyedEntries
open Platform

namespace Platform
variable {pf : Platform} {p : PyVal} {t : JsonTree Int}

/-- The values that have documents, by their kinds -/
inductive Denotes (pf : Platform) : PyVal → JsonTree Int → Prop
  | none : Denotes pf .none .null
  | bool (b : Bool) : Denotes pf (.bool b) (.bool b)
  | int (n : Int) : Denotes pf (.int n) (.num n)
  | text (k : TextKind) {s : PyStr} {cs : List Char} (h : s.scalars = some cs) : Denotes pf (.text k s) (.str cs)
  | seq (k : SeqKind) {xs : List PyVal} {ts : List (JsonTree Int)} (h : List.Forall₂ pf.Document xs ts) :
    Denotes pf (.seq k xs) (.arr ts)
  | mapping (k : MapKind) {es : List (PyKey × PyVal)} {ts : List (List Char × JsonTree Int)}
      (h : List.Forall₂ (fun e t => WrittenKey e.1 t.1 ∧ pf.Document e.2 t.2) es ts) :
    Denotes pf (.mapping k es) (.obj ts)

theorem Document.denotes (h : pf.Document p t) : Denotes pf p t := by
  obtain ⟨hk,ht⟩ := h
  cases p with
  | none => cases ht; exact .none
  | bool b => cases ht; exact .bool b
  | int n => cases (Option.ite_none_right_eq_some.mp ht).2; exact .int n
  | text k s =>
    obtain ⟨cs,hs,rfl⟩ := Option.map_eq_some_iff.mp ht
    exact .text k hs
  | seq k xs =>
    obtain ⟨ts,hts,rfl⟩ := document_seq.mp ⟨hk,ht⟩
    exact .seq k hts
  | mapping k es =>
    obtain ⟨ts,hts,rfl⟩ := document_mapping.mp ⟨hk,ht⟩
    exact .mapping k hts
  | _ => cases ht

private theorem forall₂_of_document {β : Type} {xs : List PyVal} {ts : List (JsonTree Int)} {vs : List β}
    {T : PyVal → β → Prop} (h : List.Forall₂ pf.Document xs ts)
    (h' : List.Forall₂ (fun t v => ∀ p, pf.Document p t → T p v) ts vs) : List.Forall₂ T xs vs := by
  induction h generalizing vs with
  | nil => cases h'; exact .nil
  | cons hx _ ih =>
    cases h' with
    | cons ht hts => exact .cons (ht _ hx) (ih hts)

private theorem forall₂_of_documents {β κ : Type} {es : List (PyKey × PyVal)} {ts : List (List Char × JsonTree Int)}
    {ms : List (κ × β)} {K : PyKey → κ → Prop} {T : PyVal → β → Prop} {key : List UInt16 → κ}
    (hkey : ∀ s cs, s.scalars = some cs → K (.str s) (key (Utf16.encode cs)))
    (h : List.Forall₂ (fun e t => WrittenKey e.1 t.1 ∧ pf.Document e.2 t.2) es ts)
    (h' : List.Forall₂ (fun t m => m.1 = key (Utf16.encode t.1) ∧ ∀ p, pf.Document p t.2 → T p m.2) ts ms) :
    List.Forall₂ (fun e m => K e.1 m.1 ∧ T e.2 m.2) es ms := by
  induction h generalizing ms with
  | nil => cases h'; exact .nil
  | cons he _ ih =>
    cases h' with
    | cons ht hts =>
      obtain ⟨⟨s,hs,hcs⟩,hv⟩ := he
      refine .cons ⟨?_,ht.2 _ hv⟩ (ih hts)
      rw [hs,ht.1]
      exact hkey s _ hcs

/-- Go reads of a document whatever value has it. -/
theorem goValue_document (h : pf.Document p t) (ht : Plain t) : GoValue p (Go.reading.value (t.doc JsonNumber.ofInt)) := by
  refine JsonReading.read_doc (r := fun t g => ∀ p, pf.Document p t → GoValue p g) ?_ ?_ (fun n _ p hp => ?_)
    (fun cs p hp => ?_) (fun ts vs h p hp => ?_) (fun es ms hn h p hp => ?_) Go.reading_separates ht p h
  · intro p hp
    cases hp.denotes
    exact trivial
  · intro b p hp
    cases hp.denotes
    exact rfl
  · cases hp.denotes
    exact congrArg Utf8.encode (JsonNumber.text_ofInt n)
  · cases hp.denotes with
    | text k hs => exact ⟨cs,hs,congrArg Utf8.encode (Utf16.decode_encode cs)⟩
  · cases hp.denotes with
    | seq k hts => exact goItems_iff.mpr (forall₂_of_document hts h)
  · cases hp.denotes with
    | mapping k hts =>
      refine ⟨hn,ms,.refl _,goEntries_iff.mpr (forall₂_of_documents (fun s cs hs => ?_) hts h)⟩
      exact ⟨s,cs,rfl,hs,congrArg Utf8.encode (Utf16.decode_encode cs)⟩

theorem nodeValue_document (h : pf.Document p t) (ht : Plain t) :
    NodeValue p (Node.reading.value (t.doc JsonNumber.ofInt)) := by
  have text {s : PyStr} {cs : List Char} (hs : s.scalars = some cs) : s = Utf16.codePoints (Utf16.encode cs) :=
    (PyStr.eq_ofChars_of_scalars hs).trans (ofChars_eq_codePoints cs)
  refine JsonReading.read_doc (r := fun t v => ∀ p, pf.Document p t → NodeValue p v) ?_ ?_ (fun n hsafe p hp => ?_)
    (fun cs p hp => ?_) (fun ts vs h p hp => ?_) (fun es ms hn h p hp => ?_) Node.reading_separates.anti ht p h
  · intro p hp
    cases hp.denotes
    exact trivial
  · intro b p hp
    cases hp.denotes
    exact rfl
  · cases hp.denotes
    have hn : (JsonNumber.ofInt n).Safe := ⟨JsonNumber.isInteger_ofInt n,by rwa [JsonNumber.int_ofInt]⟩
    change Binary64.round (JsonNumber.ofInt n).value = _
    rw [hn.round,JsonNumber.int_ofInt]
  · cases hp.denotes with
    | text k hs => exact text hs
  · cases hp.denotes with
    | seq k hts => exact nodeItems_iff.mpr (forall₂_of_document hts h)
  · cases hp.denotes with
    | mapping k hts =>
      have hperm := Node.ownOrder_perm ms
      refine ⟨(hperm.map _).nodup_iff.mpr hn,ms,hperm.symm,
        nodeEntries_iff.mpr (forall₂_of_documents (fun s cs hs => ?_) hts h)⟩
      exact congrArg PyKey.str (text hs)

/-! What `build_case` writes -/

/-- The value has a plain document. -/
def PlainDocument (pf : Platform) (p : PyVal) : Prop := ∃ t, pf.Document p t ∧ Plain t

theorem plainDocument_text (k : TextKind) {s : PyStr} (h : s.IsText) : pf.PlainDocument (.text k s) := by
  obtain ⟨cs,hs⟩ := h
  exact ⟨.str cs,⟨trivial,Option.map_eq_some_iff.mpr ⟨cs,hs,rfl⟩⟩,.str cs⟩

theorem plainDocument_record (k : MapKind) {fs : List (String × PyVal)} (hn : (keys fs).Nodup)
    (h : ∀ f ∈ fs, pf.PlainDocument f.2) : pf.PlainDocument (.fields k fs) := by
  have member : ∀ f ∈ fs, ∃ t : List Char × JsonTree Int, t.1 = f.1.toList ∧ pf.Document f.2 t.2 ∧ Plain t.2 := by
    intro f hf
    obtain ⟨t,ht,hplain⟩ := h f hf
    exact ⟨(_,t),rfl,ht,hplain⟩
  obtain ⟨ts,hts⟩ := exists_forall₂ member
  refine ⟨.obj ts,document_mapping.mpr ⟨ts,List.forall₂_map_left_iff.mpr (hts.imp fun f t hf => ?_),rfl⟩,.obj ?_ ?_⟩
  · exact ⟨⟨_,rfl,hf.1 ▸ PyStr.scalars_ofChars _⟩,hf.2.1⟩
  · have hkeys : ts.map (fun t => id t.1) = (keys fs).map String.toList := by
      rw [keys,List.map_map]
      exact map_eq_iff_forall₂.mpr (hts.flip.imp fun t f hf => hf.1)
    rw [hkeys]
    exact hn.map fun _ _ => String.toList_inj.mp
  · intro t ht
    obtain ⟨_,_,_,_,hplain⟩ := forall₂_of_mem_right hts ht
    exact hplain

end Platform

theorem Bundle.PortableParts.plainDocument {pf : Platform} {b : Bundle} (h : b.PortableParts pf) : pf.PlainDocument b.value := by
  have record (k : MapKind) {fs : List (String × PyVal)} (hn : (keys fs).Nodup) (hp : ∀ f ∈ fs, pf.Portable f.2) :
      pf.PlainDocument (.fields k fs) := plainDocument_record k hn fun f hf => (hp f hf).document
  have text (s : List Char) : pf.PlainDocument (.str (PyStr.ofChars s)) :=
    plainDocument_text _ ⟨s,PyStr.scalars_ofChars s⟩
  apply plainDocument_record _ (by simp [keys,Bundle.fields])
  simp only [Bundle.fields,List.forall_mem_cons]
  exact ⟨text _,text _,record _ (by simp [keys,Bundle.contextFields]) h.context,h.candidate.document,
    h.hcad.document,record _ (by simp [keys,StateTransition.fields]) h.transition,
    record _ (by simp [keys,ValidationEvidence.fields]) h.evidence,
    record _ (by simp [keys,Capability.fields]) h.capability,by simp⟩

/-! The verifiers on a file -/

/-- The Go verifier decodes the text into a map and passes it. -/
def Go.Passes (pf : Platform) (s : List Char) : Prop :=
  ∃ d, decode s = some (.map d) ∧ ∃ out, finalityverify pf d = .ok out

def Node.Passes (pf : Platform) (s : List Char) : Prop := ∃ d, parse s = some d ∧ ∃ out, finalityVerify pf d = .ok out

section
variable {pf : Node.Platform} {a : ProtectedAuthority} {key : Bytes} {kid : PyStr} {state state' : ProtectedState}
  {store store' : EvidenceStore} {c : CandidateAct} {cap : Capability} {cost now : Int} {scopes : List PyStr} {b : Bundle}

/-- A linked bundle passes as a file, too. -/
theorem file_passes (hw : pf.PlainDocument b.value) (hs : b.value.SafeInts) (hl : b.Links pf)
    (hkey : Node.IsHex (Utf16.encode b.authorityKeyHex)) :
    ∃ s, pf.dumps b.value.asdictInner = some s ∧ Go.Passes pf.toPlatform s ∧ Node.Passes pf s := by
  obtain ⟨t,ht,hplain⟩ := hw
  obtain ⟨s,hdumps⟩ := exists_dumps.mpr ⟨t,ht.2⟩
  have hread := read_dumps ht.2 hdumps
  have hg := goValue_document ht hplain
  have hv := nodeValue_document ht hplain
  obtain ⟨⟨_,r⟩,hfirst,hrest⟩ := Option.bind_eq_some_iff.mp hread
  cases (Option.ite_none_right_eq_some.mp hrest).2
  cases hmap : Go.reading.value (t.doc JsonNumber.ofInt) with
  | map d =>
    rw [hmap] at hg
    have hlinked : Node.Linked pf (Node.reading.value (t.doc JsonNumber.ofInt)) := (linked_iff hv hs).mpr hl
    refine ⟨s,hdumps,⟨d,?_,(finalityverify_ok ⟨_,hg,hv,hs⟩).mpr ⟨typed_of_bundle hv hkey,hlinked⟩⟩,_,?_,
      Node.finalityVerify_ok.mpr ⟨present_of_bundle hv,hlinked⟩⟩
    · rw [Go.decode,hfirst,Option.map_some,hmap]
    · rw [Node.parse,hread,Option.map_some]
  | _ =>
    rw [hmap] at hg
    exact hg.elim

/-- Whatever an authority with an HMAC key issues, the file of its bundle passes both portable verifiers. -/
theorem issued_files_pass (ha : a.authenticator = .hmac key kid)
    (h : a.authorize pf.toPlatform state store c cost now = (.ok cap,state',store')) (hscopes : ∀ x ∈ c.scope, x ∈ scopes)
    (htexts : ∀ x ∈ scopes, x.IsText) (hp : pf.Portable c.payload) (hctx : pf.Portable (.dict c.authorityContext)) :
    (∃ b, Bundle.Exports pf.toPlatform key scopes state' store' c cap b) ∧
    ∀ b, Bundle.Exports pf.toPlatform key scopes state' store' c cap b → b.value.SafeInts →
      ∃ s, pf.dumps b.value.asdictInner = some s ∧ Go.Passes pf.toPlatform s ∧ Node.Passes pf s := by
  refine ⟨exists_exports _ _ _ h,fun b hb hs => ?_⟩
  have hi := hb.issued h
  refine file_passes (portableParts_of_exports hi hs hb htexts hp hctx).plainDocument hs
    (issued_links hi hs ha hb hscopes hp hctx) ?_
  rw [hb.authorityKeyHex]
  exact (hexPrefix_hexChars key).1

end

theorem issued_files_pass_sample : ∃ (b : Bundle) (s : List Char), b.candidate.nonce = py "\u212A" ∧
    samplePlatform.dumps b.value.asdictInner = some s ∧ Go.Passes samplePlatform s ∧ Node.Passes Node.samplePlatform s := by
  have payload : samplePlatform.Portable (.str (py "\u212A")) := portable_text (accepts_text.mpr (py_isText _))
  have context : samplePlatform.Portable (.dict [(.str (py "presenter_key_id"),.str (py "presenter"))]) := ⟨_,rfl⟩
  obtain ⟨cap,state',store',h⟩ := (sampleHmac_admissible (py "\u212A") (.str (py "\u212A")) (py_isText _)
    (accepts_text.mpr (py_isText _))).authorize sampleNfc_fixesAscii
  change sampleHmacAuthority.authorize Node.samplePlatform.toPlatform _ _ _ _ _ = _ at h
  obtain ⟨⟨b,hb⟩,hall⟩ := issued_files_pass
    (show sampleHmacAuthority.authenticator = .hmac [1] (py "authority-key") from rfl) h
    (show ∀ x ∈ (sampleAct (py "\u212A") (.str (py "\u212A"))).scope, x ∈ [py "pay"] from fun _ hx => hx)
    (fun _ hx => List.mem_singleton.mp hx ▸ py_isText _) payload context
  obtain ⟨s,hs,hpass⟩ := hall b hb (hb.safeInts h (sampleAct_safeInts _ trivial) (by decide) (by decide) (by decide))
  exact ⟨b,s,by rw [hb.candidate]; rfl,hs,hpass⟩

end ExecutionFinality
