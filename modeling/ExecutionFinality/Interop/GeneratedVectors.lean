import ExecutionFinality.Interop.ConformanceVerdicts
import ExecutionFinality.Interop.IssuedFiles

/-! The files of `generate_vectors.py`, and what the runners of the three languages make of them. -/
namespace ExecutionFinality
open Utf8 (Bytes)
open KeyedEntries
open CheckChains
open Utf16 (Scalar)

namespace Platform

/-- `f"v{n:02d}"` -/
def vectorId (n : Nat) : PyStr :=
  PyStr.ofChars ('v' :: if n < 10 then '0' :: Nat.toDigits 10 n else Nat.toDigits 10 n)

/-- One turn of the loop over `VALUES`, when nothing is raised -/
def vector (pf : Platform) (key : Bytes) (i : Nat) (value : PyVal) : Option PyVal := do
  let cb ← (pf.portableCanonicalBytes value).toOption
  let canonical ← Utf8.decode cb
  return .fields .dict [("id",.str (vectorId (i + 1))),("value",value),
    ("canonical_utf8",.str (PyStr.ofChars canonical)),("sha256",.str (PyStr.ofChars (hexChars (pf.sha256 cb)))),
    ("hmac_sha256",.str (PyStr.ofChars (hexChars (pf.hmacSha256 key cb))))]

def out (key : Bytes) (vectors : List PyVal) : PyVal :=
  .fields .dict [("schema",.str (py "finality-interop-v2")),("key_hex",.str (PyStr.ofChars (hexChars key))),
    ("vectors",.list vectors)]

/-- The text of `interop.json` -/
def interop (pf : Platform) (key : Bytes) (values : List PyVal) : Option (List Char) := do
  let vectors ← values.zipIdx.mapM fun v => pf.vector key v.2 v.1
  pf.dumps (out key vectors)

def positiveCase (pf : Platform) (ident : String) (value : PyVal) : Option PyVal := do
  let canonical ← Utf8.decode (← (pf.portableCanonicalBytes value).toOption)
  return .fields .dict [("id",.str (py ident)),("value",value),("canonical_utf8",.str (PyStr.ofChars canonical))]

def negativeCase (ident : String) (value : PyVal) : PyVal := .fields .dict [("id",.str (py ident)),("value",value)]

def conformance (positive negative : List PyVal) : PyVal :=
  .fields .dict [("schema",.str (py "finality-canonicalization-conformance-v1")),("positive",.list positive),
    ("negative",.list negative)]

/-- The text of `canonicalization_conformance.json` -/
def canonicalizationConformance (pf : Platform) (positiveValues negative : List (String × PyVal)) :
    Option (List Char) := do
  let positive ← positiveValues.mapM fun v => pf.positiveCase v.1 v.2
  pf.dumps (conformance positive (negative.map fun v => negativeCase v.1 v.2))

/-- What is read back of the value in a file is in the portable profile. -/
def PortableReloaded (pf : Platform) (v : PyVal) : Prop := ∃ w, pf.reloaded v = some w ∧ pf.Portable w

/-! Documents of the values that are written -/

/-- The value is written as this document. -/
def WrittenDoc (pf : Platform) (v : PyVal) (d : JsonDoc) : Prop :=
  ∃ t, pf.written v = some t ∧ d = t.doc JsonNumber.ofInt

section
variable {pf : Platform} {v : PyVal} {d : JsonDoc}

theorem Portable.writtenDoc (h : pf.Portable v) (hv : v.NoInstance) : ∃ d, pf.WrittenDoc v d := by
  obtain ⟨t,ht⟩ := h.exists_written.mpr hv
  exact ⟨_,t,ht,rfl⟩

theorem writtenDoc_int {n : Int} (h : pf.Prints n) : pf.WrittenDoc (.int n) (.num (.ofInt n)) :=
  ⟨.num n,if_pos h,rfl⟩

theorem writtenDoc_text (k : TextKind) (cs : List Char) :
    pf.WrittenDoc (.text k (PyStr.ofChars cs)) (.str (Utf16.encode cs)) :=
  ⟨.str cs,Option.map_eq_some_iff.mpr ⟨cs,PyStr.scalars_ofChars cs,rfl⟩,rfl⟩

theorem writtenDoc_list {vs : List PyVal} {ds : List JsonDoc} (h : List.Forall₂ pf.WrittenDoc vs ds) :
    pf.WrittenDoc (.list vs) (.arr ds) := by
  obtain ⟨ts,hts,rfl⟩ := forall₂_map_image.mp h
  exact ⟨.arr ts,written_seq.mpr ⟨ts,hts,rfl⟩,(JsonTree.doc_arr ts).symm⟩

/-- A record is written field by field. -/
theorem writtenDoc_fields {fs : List (String × PyVal)} (ds : List (String × JsonDoc))
    (h : List.Forall₂ (fun f d => d.1 = f.1 ∧ pf.WrittenDoc f.2 d.2) fs ds) :
    pf.WrittenDoc (.fields .dict fs) (.obj (ds.map fun d => (Utf16.encode d.1.toList,d.2))) := by
  have field (f : String × PyVal) (d : String × JsonDoc) (hf : d.1 = f.1 ∧ pf.WrittenDoc f.2 d.2) :
      ∃ t : String × JsonTree Int, (t.1 = f.1 ∧ pf.written f.2 = some t.2) ∧ d = (t.1,t.2.doc JsonNumber.ofInt) := by
    obtain ⟨hname,t,ht,hd⟩ := hf
    exact ⟨(f.1,t),⟨rfl,ht⟩,Prod.ext hname hd⟩
  obtain ⟨ts,hts,rfl⟩ := forall₂_map_image.mp (h.imp field)
  refine ⟨.obj (ts.map fun t => (t.1.toList,t.2)),written_dict.mpr ⟨_,?_,rfl⟩,?_⟩
  · rw [List.forall₂_map_left_iff,List.forall₂_map_right_iff]
    exact hts.imp fun f t hf => ⟨hf.1 ▸ PyStr.scalars_ofChars _,hf.2⟩
  · rw [JsonTree.doc_obj,List.map_map,List.map_map]
    rfl

theorem writtenDoc_unambiguous (h : pf.WrittenDoc v d) : d.Unambiguous := by
  obtain ⟨t,ht,rfl⟩ := h
  refine (JsonReading.live_doc (over_written ht)).imp ?_ fun _ hu => hu
  rintro _ ⟨n,_,rfl⟩
  exact ⟨JsonNumber.ofInt_ne_minusZero n,.inl (JsonNumber.isInteger_ofInt n)⟩

theorem writtenDoc_literals (h : pf.WrittenDoc v d) : pf.PrintsLiterals d := by
  obtain ⟨t,ht,rfl⟩ := h
  intro n hn _
  obtain ⟨m,hm,rfl⟩ := JsonReading.numbers_doc (over_written ht) n hn
  rwa [JsonNumber.int_ofInt]

/-- The file is read as the document. -/
theorem read_of_writtenDoc {pf : Node.Platform} (h : pf.WrittenDoc v d) : ∃ s, pf.dumps v = some s ∧ JsonDoc.read s = some d := by
  obtain ⟨t,ht,rfl⟩ := h
  obtain ⟨s,hs⟩ := exists_dumps.mpr ⟨t,ht⟩
  exact ⟨s,hs,read_dumps ht hs⟩

theorem reloaded_of_writtenDoc {pf : Node.Platform} (h : pf.WrittenDoc v d) :
    pf.reloaded v = some (PyVal.reading.value d) := by
  obtain ⟨s,hs,hread⟩ := read_of_writtenDoc h
  rw [reloaded,hs,Option.bind_eq_bind,Option.bind_some]
  exact (loads_eq_some hread).mpr ⟨writtenDoc_literals h,rfl⟩

theorem portableReloaded_iff {pf : Node.Platform} (h : pf.WrittenDoc v d) :
    pf.PortableReloaded v ↔ pf.Portable (PyVal.reading.value d) := by
  simp only [PortableReloaded,reloaded_of_writtenDoc h,Option.some.injEq,exists_eq_left']

theorem noInstance_fields {fs : List (String × PyVal)} :
    (PyVal.fields .dict fs).NoInstance ↔ ∀ f ∈ fs, f.2.NoInstance := by
  rw [PyVal.fields,PyVal.NoInstance,PyVal.within_mapping]
  exact (and_iff_right rfl).trans List.forall_mem_map

/-- The lists of a file hold no instance. -/
theorem noInstance_of_dumps {fs : List (String × PyVal)} {s : List Char} (h : pf.dumps (.fields .dict fs) = some s)
    {name : String} {ws : List PyVal} (hm : (name,.list ws) ∈ fs) : ∀ w ∈ ws, w.NoInstance := by
  obtain ⟨_,ht,_⟩ := Option.map_eq_some_iff.mp h
  exact PyVal.within_seq.mp (noInstance_fields.mp (noInstance_of_written ht) _ hm)

theorem distinctTextKeys_fields {k : MapKind} {fs : List (String × PyVal)} (hn : (keys fs).Nodup)
    (h : ∀ f ∈ fs, f.2.DistinctTextKeys) : (PyVal.fields k fs).DistinctTextKeys := by
  refine PyVal.within_mapping.mpr ⟨⟨?_,?_⟩,List.forall_mem_map.mpr h⟩
  · have hkeys : keys (fs.map fun f => (PyKey.str (py f.1),f.2)) = (keys fs).map fun name => .str (py name) := by
      rw [keys,keys,List.map_map,List.map_map]
      rfl
    exact hkeys ▸ hn.map fun _ _ h => String.toList_inj.mp (PyStr.ofChars_injective (PyKey.str.inj h))
  · rintro key hkey
    obtain ⟨_,he,rfl⟩ := List.mem_map.mp hkey
    obtain ⟨f,_,rfl⟩ := List.mem_map.mp he
    exact ⟨_,rfl⟩

theorem portable_iff {pf : Node.Platform} :
    pf.Portable v ↔ ∃ cs, pf.portableCanonicalBytes v = .ok (Utf8.encode cs) := by
  constructor
  · rintro ⟨j,hj⟩
    exact ⟨_,portableCanonicalBytes_iff.mpr ⟨_,⟨j,hj,rfl⟩,rfl⟩⟩
  · rintro ⟨cs,hcs⟩
    obtain ⟨_,⟨j,hj,_⟩,_⟩ := portableCanonicalBytes_iff.mp hcs
    exact ⟨j,hj⟩

end
end Platform

section
variable {pf : Node.Platform} {key : Bytes} {v w : PyVal} {i : Nat}

/-- A case is made of the canonical bytes and their text. -/
private theorem encoded_eq_some {f : Bytes → List Char → PyVal} :
    ((pf.portableCanonicalBytes v).toOption.bind fun cb => (Utf8.decode cb).bind fun cs => some (f cb cs)) = some w ↔
      ∃ cs, pf.portableCanonicalBytes v = .ok (Utf8.encode cs) ∧ f (Utf8.encode cs) cs = w := by
  simp only [Option.bind_eq_some_iff,toOption_eq_some,Option.some.injEq]
  constructor
  · rintro ⟨b,hb,cs,hcs,hw⟩
    cases Utf8.decode_eq_some hcs
    exact ⟨cs,hb,hw⟩
  · rintro ⟨cs,hcs,hw⟩
    exact ⟨_,hcs,cs,Utf8.decode_encode cs,hw⟩

/-- A record that is made of the text, and that holds the value and besides it texts -/
private theorem exists_encoded {f : Bytes → List Char → PyVal} (hf : ∀ cb cs, (f cb cs).NoInstance ↔ v.NoInstance) :
    (∃ w, (((pf.portableCanonicalBytes v).toOption.bind fun cb => (Utf8.decode cb).bind fun cs => some (f cb cs)) = some w) ∧
      w.NoInstance) ↔ pf.Portable v ∧ v.NoInstance := by
  simp only [encoded_eq_some,Platform.portable_iff]
  constructor
  · rintro ⟨_,⟨cs,hcs,rfl⟩,hw⟩
    exact ⟨⟨cs,hcs⟩,(hf _ _).mp hw⟩
  · rintro ⟨⟨cs,hcs⟩,hv⟩
    exact ⟨_,⟨cs,hcs,rfl⟩,(hf _ _).mpr hv⟩

theorem exists_vector : (∃ w, pf.vector key i v = some w ∧ w.NoInstance) ↔ pf.Portable v ∧ v.NoInstance :=
  exists_encoded fun _ _ => by simp [Platform.noInstance_fields]

/-- What is read of a written value has its canonical bytes. -/
theorem portableCanonicalBytes_doc (h : pf.Portable v) {d : JsonDoc} (hd : pf.WrittenDoc v d) {b : Bytes} :
    pf.portableCanonicalBytes (PyVal.reading.value d) = .ok b ↔ pf.portableCanonicalBytes v = .ok b := by
  obtain ⟨t,ht,rfl⟩ := hd
  obtain ⟨u,hu,hplain⟩ := h.document
  cases (Platform.document_of_written ht hu.1).unique hu
  exact portableCanonicalBytes_reading hu (hplain.imp fun _ => Platform.prints_of_safe)

/-- A vector is written as a case that holds. -/
theorem vector_case (h : pf.vector key i v = some w) (hw : w.NoInstance) : ∃ c : VectorCase × JsonDoc,
    pf.WrittenDoc w c.2 ∧ c.1.WrittenAs c.2 ∧ c.1.PassesPython pf.toPlatform key ∧ c.1.value.NoMinusZero := by
  obtain ⟨hv,hplain⟩ := exists_vector.mp ⟨w,h,hw⟩
  obtain ⟨cs,hb,rfl⟩ := encoded_eq_some.mp h
  obtain ⟨d,hd⟩ := hv.writtenDoc hplain
  let c : VectorCase := ⟨Utf16.encode ('v' :: if i + 1 < 10 then '0' :: Nat.toDigits 10 (i + 1) else Nat.toDigits 10 (i + 1)),d,
    Utf16.encode cs,Utf16.encode (hexChars (pf.sha256 (Utf8.encode cs))),
    Utf16.encode (hexChars (pf.hmacSha256 key (Utf8.encode cs)))⟩
  refine ⟨(c,_),Platform.writtenDoc_fields c.fields ?_,⟨_,rfl,Go.named_of_nodup ?_⟩,
    ⟨_,(portableCanonicalBytes_doc hv hd).mpr hb,cs,rfl,rfl,rfl,rfl⟩,(Platform.writtenDoc_unambiguous hd).noMinusZero⟩
  · exact .cons ⟨rfl,Platform.writtenDoc_text _ _⟩ (.cons ⟨rfl,hd⟩ (.cons ⟨rfl,Platform.writtenDoc_text _ _⟩
      (.cons ⟨rfl,Platform.writtenDoc_text _ _⟩ (.cons ⟨rfl,Platform.writtenDoc_text _ _⟩ .nil))))
  · simp only [VectorCase.fields,List.map_cons,List.map_nil]
    decide

/-- The vectors of a file -/
theorem writtenDoc_out {ws : List PyVal} (h : ∀ w ∈ ws, ∃ v i, pf.vector key i v = some w ∧ w.NoInstance) :
    ∃ cs d, pf.WrittenDoc (Platform.out key ws) d ∧ VectorFile key cs d ∧ cs.length = ws.length ∧
      ∀ c ∈ cs, c.PassesPython pf.toPlatform key ∧ c.value.NoMinusZero := by
  obtain ⟨cs,ds,hds,hcs,hpasses⟩ := exists_forall₂_pairs (R := pf.WrittenDoc) (S := VectorCase.WrittenAs)
    (T := fun _ c => c.PassesPython pf.toPlatform key ∧ c.value.NoMinusZero)
    fun w hw => (h w hw).elim fun _ ⟨_,hv,hw⟩ => vector_case hv hw
  let fs : List (String × JsonDoc) := [("schema",.str (Utf16.encode "finality-interop-v2".toList)),
    ("key_hex",.str (Utf16.encode (hexChars key))),("vectors",.arr ds)]
  have named : ∀ f ∈ fs, Go.Named (fs.map fun f => (Utf16.encode f.1.toList,f.2)) f.1 f.2 :=
    Go.named_of_nodup (by simp only [fs,List.map_cons,List.map_nil]; decide)
  refine ⟨_,_,Platform.writtenDoc_fields fs ?_,
    ⟨_,_,rfl,named _ (.tail _ (.head _)),named _ (.tail _ (.tail _ (.head _))),hcs⟩,hpasses.length_eq.symm,fun c hc => ?_⟩
  · exact .cons ⟨rfl,Platform.writtenDoc_text _ _⟩ (.cons ⟨rfl,Platform.writtenDoc_text _ _⟩
      (.cons ⟨rfl,Platform.writtenDoc_list hds⟩ .nil))
  · obtain ⟨_,_,hc⟩ := forall₂_of_mem_right hpasses hc
    exact hc

/-- The vectors are generated exactly for portable values without instances, and the tests and the runners pass all
of them. -/
theorem generated_vectors_pass {values : List PyVal} :
    ((∃ s, pf.interop key values = some s) ↔ ∀ v ∈ values, pf.Portable v ∧ v.NoInstance) ∧
    ∀ s, pf.interop key values = some s → pf.toPlatform.TestsVectors s ∧
      Go.VerifiesVectors pf.toPlatform s values.length ∧ Node.VerifiesVectors pf s values.length := by
  -- The vectors of a file hold no instance, as the file has been written.
  have vectors {ws : List PyVal} {s : List Char} (hs : pf.dumps (Platform.out key ws) = some s)
      (h : List.Forall₂ (fun v w => pf.vector key v.2 v.1 = some w) values.zipIdx ws) :
      List.Forall₂ (fun v w => pf.vector key v.2 v.1 = some w ∧ w.NoInstance) values.zipIdx ws :=
    (forall₂_imp_of_mem (fun w hw v hv => ⟨hv,Platform.noInstance_of_dumps hs (.tail _ (.tail _ (.head _))) w hw⟩) h.flip).flip
  have written {ws : List PyVal}
      (h : List.Forall₂ (fun v w => pf.vector key v.2 v.1 = some w ∧ w.NoInstance) values.zipIdx ws) :=
    writtenDoc_out fun w hw => (forall₂_of_mem_right h hw).elim fun v ⟨_,hv⟩ => ⟨v.1,v.2,hv⟩
  have portable : (∀ v ∈ values, pf.Portable v ∧ v.NoInstance) ↔
      ∃ ws, List.Forall₂ (fun v w => pf.vector key v.2 v.1 = some w ∧ w.NoInstance) values.zipIdx ws := by
    simp only [exists_forall₂_iff,exists_vector]
    rw [← List.forall_mem_map (f := Prod.fst) (P := fun v => pf.Portable v ∧ v.NoInstance),List.zipIdx_map_fst]
  simp only [Platform.interop,Option.bind_eq_bind,Option.bind_eq_some_iff,mapM_eq_some,portable]
  refine ⟨⟨?_,?_⟩,?_⟩
  · rintro ⟨s,ws,hws,hs⟩
    exact ⟨ws,vectors hs hws⟩
  · rintro ⟨ws,hws⟩
    obtain ⟨_,d,hd,_⟩ := written hws
    obtain ⟨s,hs,_⟩ := Platform.read_of_writtenDoc hd
    exact ⟨s,ws,hws.imp fun _ _ => And.left,hs⟩
  · rintro s ⟨ws,hws,hs⟩
    obtain ⟨cs,d,hd,hfile,hlen,hcs⟩ := written (vectors hs hws)
    obtain ⟨s',hs',hread⟩ := Platform.read_of_writtenDoc hd
    cases hs.symm.trans hs'
    rw [← hws.length_eq,List.length_zipIdx] at hlen
    rw [← hlen,testsVectors_iff hread hfile,go_verifiesVectors_iff hread hfile,node_verifiesVectors_iff hread hfile]
    refine ⟨⟨fun c hc => (hcs c hc).1,Platform.writtenDoc_literals hd⟩,fun c hc => ?_,fun c hc => ?_⟩
    · exact (VectorCase.go_iff_of_python (hcs c hc).1).mpr (hcs c hc).2
    · exact (VectorCase.python_iff_node.mp (hcs c hc).1).1

/-! The conformance cases -/

theorem exists_positiveCase {ident : String} :
    (∃ w, pf.positiveCase ident v = some w ∧ w.NoInstance) ↔ pf.Portable v ∧ v.NoInstance :=
  exists_encoded fun _ _ => by simp [Platform.noInstance_fields]

theorem positiveCase_case {ident : String} (h : pf.positiveCase ident v = some w) (hw : w.NoInstance) :
    ∃ c : PositiveCase × JsonDoc, pf.WrittenDoc w c.2 ∧ c.1.WrittenAs c.2 ∧ c.1.Holds pf.toPlatform ∧
      c.1.value.Unambiguous ∧ Scalar c.1.canonical := by
  obtain ⟨hv,hplain⟩ := exists_positiveCase.mp ⟨w,h,hw⟩
  obtain ⟨cs,hb,rfl⟩ := encoded_eq_some.mp h
  obtain ⟨d,hd⟩ := hv.writtenDoc hplain
  let c : PositiveCase := ⟨Utf16.encode ident.toList,d,Utf16.encode cs⟩
  refine ⟨(c,_),Platform.writtenDoc_fields c.fields ?_,⟨_,rfl,Go.named_of_nodup ?_⟩,
    ⟨cs,rfl,(portableCanonicalBytes_doc hv hd).mpr hb⟩,Platform.writtenDoc_unambiguous hd,cs,rfl⟩
  · exact .cons ⟨rfl,Platform.writtenDoc_text _ _⟩ (.cons ⟨rfl,hd⟩ (.cons ⟨rfl,Platform.writtenDoc_text _ _⟩ .nil))
  · simp only [PositiveCase.fields,List.map_cons,List.map_nil]
    decide

theorem negativeCase_case {d : JsonDoc} (ident : String) (hd : pf.WrittenDoc v d) :
    ∃ c : NegativeCase × JsonDoc, pf.WrittenDoc (Platform.negativeCase ident v) c.2 ∧ c.1.WrittenAs c.2 ∧
      (c.1.Holds pf.toPlatform ↔ ¬ pf.PortableReloaded v) ∧ c.1.value.Unambiguous := by
  let c : NegativeCase := ⟨Utf16.encode ident.toList,d⟩
  refine ⟨(c,_),Platform.writtenDoc_fields c.fields ?_,⟨_,rfl,Go.named_of_nodup ?_⟩,not_congr ?_,
    Platform.writtenDoc_unambiguous hd⟩
  · exact .cons ⟨rfl,Platform.writtenDoc_text _ _⟩ (.cons ⟨rfl,hd⟩ .nil)
  · simp only [NegativeCase.fields,List.map_cons,List.map_nil]
    decide
  · rw [Platform.portableReloaded_iff hd,Platform.portable_iff]
    constructor
    · rintro ⟨b,hb⟩
      obtain ⟨cs,_,rfl⟩ := portableCanonicalBytes_iff.mp hb
      exact ⟨cs,hb⟩
    · rintro ⟨cs,hcs⟩
      exact ⟨_,hcs⟩

/-- Only keys that are no strings, and that strings in the file stand for, tell a value from what is read of it. -/
theorem portableReloaded_of_textKeys (hd : ∃ d, pf.WrittenDoc v d) (hk : v.DistinctTextKeys) :
    pf.PortableReloaded v ↔ pf.Portable v := by
  obtain ⟨_,t,ht,rfl⟩ := hd
  rw [Platform.portableReloaded_iff ⟨t,ht,rfl⟩]
  simp only [Platform.portable_iff,
    portableCanonicalBytes_reading (Platform.document_of_written ht hk.textKeys) (Platform.regular_written ht hk)]

theorem writtenDoc_conformance {ws : List PyVal} {ns : List (String × PyVal)}
    (hp : ∀ w ∈ ws, ∃ ident v, pf.positiveCase ident v = some w ∧ w.NoInstance) (hn : ∀ n ∈ ns, ∃ d, pf.WrittenDoc n.2 d) :
    ∃ cs ds d, pf.WrittenDoc (Platform.conformance ws (ns.map fun n => Platform.negativeCase n.1 n.2)) d ∧
      ConformanceFile cs ds d ∧ cs.length = ws.length ∧ ds.length = ns.length ∧
      (∀ c ∈ cs, c.Holds pf.toPlatform ∧ c.value.Unambiguous ∧ Scalar c.canonical) ∧
      ((∀ c ∈ ds, c.Holds pf.toPlatform) ↔ ∀ n ∈ ns, ¬ pf.PortableReloaded n.2) ∧ ∀ c ∈ ds, c.value.Unambiguous := by
  obtain ⟨cs,docs,hdocs,positive,hcs⟩ := exists_forall₂_pairs (R := pf.WrittenDoc) (S := PositiveCase.WrittenAs)
    (T := fun _ c => c.Holds pf.toPlatform ∧ c.value.Unambiguous ∧ Scalar c.canonical)
    fun w hw => (hp w hw).elim fun _ ⟨_,hv,hw⟩ => positiveCase_case hv hw
  obtain ⟨ds,docs',hdocs',negative,hds⟩ := exists_forall₂_pairs (S := NegativeCase.WrittenAs)
    (R := fun (n : String × PyVal) d => pf.WrittenDoc (Platform.negativeCase n.1 n.2) d)
    (T := fun n c => (c.Holds pf.toPlatform ↔ ¬ pf.PortableReloaded n.2) ∧ c.value.Unambiguous)
    fun n hm => (hn n hm).elim fun _ hd => negativeCase_case n.1 hd
  let fs : List (String × JsonDoc) := [("schema",.str (Utf16.encode "finality-canonicalization-conformance-v1".toList)),
    ("positive",.arr docs),("negative",.arr docs')]
  have named : ∀ f ∈ fs, Go.Named (fs.map fun f => (Utf16.encode f.1.toList,f.2)) f.1 f.2 :=
    Go.named_of_nodup (by simp only [fs,List.map_cons,List.map_nil]; decide)
  refine ⟨cs,ds,_,Platform.writtenDoc_fields fs ?_,
    ⟨_,_,_,rfl,named _ (.tail _ (.head _)),named _ (.tail _ (.tail _ (.head _))),positive,negative⟩,
    hcs.length_eq.symm,hds.length_eq.symm,fun c hc => ?_,?_,fun c hc => ?_⟩
  · exact .cons ⟨rfl,Platform.writtenDoc_text _ _⟩ (.cons ⟨rfl,Platform.writtenDoc_list hdocs⟩
      (.cons ⟨rfl,Platform.writtenDoc_list (List.forall₂_map_left_iff.mpr hdocs')⟩ .nil))
  · obtain ⟨_,_,hc⟩ := forall₂_of_mem_right hcs hc
    exact hc
  · exact (forall_mem_iff hds fun _ _ hc => hc.1.symm).symm
  · obtain ⟨_,_,hc⟩ := forall₂_of_mem_right hds hc
    exact hc.2

/-- The tests and the runners pass the generated cases exactly when no negative value is portable as it is read back;
with strings for keys that is the value itself. -/
theorem generated_conformance_passes {ps ns : List (String × PyVal)} (hn : ∀ n ∈ ns, ∃ s, pf.dumps n.2 = some s) :
    ((∃ s, pf.canonicalizationConformance ps ns = some s) ↔ ∀ p ∈ ps, pf.Portable p.2 ∧ p.2.NoInstance) ∧
    (∀ s, pf.canonicalizationConformance ps ns = some s →
      (pf.toPlatform.TestsConformance s ↔ ∀ n ∈ ns, ¬ pf.PortableReloaded n.2) ∧
      (Go.VerifiesConformance pf.nfc s (ps.length + ns.length) ↔ ∀ n ∈ ns, ¬ pf.PortableReloaded n.2) ∧
      (Node.VerifiesConformance pf s (ps.length + ns.length) ↔ ∀ n ∈ ns, ¬ pf.PortableReloaded n.2)) ∧
    ∀ n ∈ ns, n.2.DistinctTextKeys → (pf.PortableReloaded n.2 ↔ pf.Portable n.2) := by
  have negative : ∀ n ∈ ns, ∃ d, pf.WrittenDoc n.2 d := fun n hm =>
    (exists_dumps.mp (hn n hm)).elim fun t ht => ⟨_,t,ht,rfl⟩
  have cases {ws : List PyVal} {s : List Char}
      (hs : pf.dumps (Platform.conformance ws (ns.map fun n => Platform.negativeCase n.1 n.2)) = some s)
      (h : List.Forall₂ (fun p w => pf.positiveCase p.1 p.2 = some w) ps ws) :
      List.Forall₂ (fun p w => pf.positiveCase p.1 p.2 = some w ∧ w.NoInstance) ps ws :=
    (forall₂_imp_of_mem (fun w hw p hp => ⟨hp,Platform.noInstance_of_dumps hs (.tail _ (.head _)) w hw⟩) h.flip).flip
  have written {ws : List PyVal}
      (h : List.Forall₂ (fun p w => pf.positiveCase p.1 p.2 = some w ∧ w.NoInstance) ps ws) :=
    writtenDoc_conformance (fun w hw => (forall₂_of_mem_right h hw).elim fun p ⟨_,hp⟩ => ⟨p.1,p.2,hp⟩) negative
  have portable : (∀ p ∈ ps, pf.Portable p.2 ∧ p.2.NoInstance) ↔
      ∃ ws, List.Forall₂ (fun p w => pf.positiveCase p.1 p.2 = some w ∧ w.NoInstance) ps ws := by
    simp only [exists_forall₂_iff,exists_positiveCase]
  simp only [Platform.canonicalizationConformance,Option.bind_eq_bind,Option.bind_eq_some_iff,mapM_eq_some,portable]
  refine ⟨⟨?_,?_⟩,?_,fun n hm => portableReloaded_of_textKeys (negative n hm)⟩
  · rintro ⟨s,ws,hws,hs⟩
    exact ⟨ws,cases hs hws⟩
  · rintro ⟨ws,hws⟩
    obtain ⟨_,_,d,hd,_⟩ := written hws
    obtain ⟨s,hs,_⟩ := Platform.read_of_writtenDoc hd
    exact ⟨s,ws,hws.imp fun _ _ => And.left,hs⟩
  · rintro s ⟨ws,hws,hs⟩
    obtain ⟨cs,ds,d,hd,hfile,hlen,hlen',hcs,hds,hplain⟩ := written (cases hs hws)
    obtain ⟨s',hs',hread⟩ := Platform.read_of_writtenDoc hd
    cases hs.symm.trans hs'
    rw [← hws.length_eq] at hlen
    rw [← hlen,← hlen',testsConformance_iff hread hfile,go_verifiesConformance_iff hread hfile (fun c hc => (hcs c hc).2) hplain,
      node_verifiesConformance_iff hread hfile (fun c hc => (hcs c hc).2.1) hplain,hds]
    have hpositive : ∀ c ∈ cs, c.Holds pf.toPlatform := fun c hc => (hcs c hc).1
    exact ⟨⟨fun h => h.1.2,fun h => ⟨⟨hpositive,h⟩,Platform.writtenDoc_literals hd⟩⟩,
      and_iff_right hpositive,and_iff_right hpositive⟩

end

theorem generated_vectors_pass_sample : ∃ s, Node.samplePlatform.interop [1] [.str (py "\u212A")] = some s ∧
    samplePlatform.TestsVectors s ∧ Go.VerifiesVectors samplePlatform s 1 ∧ Node.VerifiesVectors Node.samplePlatform s 1 := by
  obtain ⟨hexists,hpasses⟩ := @generated_vectors_pass Node.samplePlatform [1] [.str (py "\u212A")]
  obtain ⟨s,hs⟩ := hexists.mpr (by rintro v (_ | ⟨_,⟨⟩⟩); exact ⟨⟨_,rfl⟩,trivial⟩)
  exact ⟨s,hs,hpasses s hs⟩

/-- Two keys that become one, and an integer out of the range -/
def sampleRejected : List (String × PyVal) :=
  [("nfc-key-collision",.fields .dict [("K",.int 1),("\u212A",.int 2)]),
    ("unsafe-positive-integer",.fields .dict [("n",.int 9007199254740992)])]

theorem sampleRejected_written : ∀ n ∈ sampleRejected, ∃ s, Node.samplePlatform.dumps n.2 = some s := by
  simp only [sampleRejected,List.forall_mem_cons]
  have written (fs : List (String × PyVal)) (ds : List (String × JsonDoc)) (h : List.Forall₂ (fun f d => d.1 = f.1 ∧
      Node.samplePlatform.WrittenDoc f.2 d.2) fs ds) : ∃ s, Node.samplePlatform.dumps (.fields .dict fs) = some s := by
    obtain ⟨t,ht,_⟩ := Platform.writtenDoc_fields ds h
    exact exists_dumps.mpr ⟨t,ht⟩
  refine ⟨written _ [("K",_),("\u212A",_)] (.cons ⟨rfl,Platform.writtenDoc_int ?_⟩ (.cons ⟨rfl,Platform.writtenDoc_int ?_⟩ .nil)),
    written _ [("n",_)] (.cons ⟨rfl,Platform.writtenDoc_int samplePlatform_prints⟩ .nil),by simp⟩
  all_goals exact Platform.prints_of_lt (by decide)

theorem sampleRejected_rejected : ∀ n ∈ sampleRejected, ¬ Node.samplePlatform.Portable n.2 := by
  simp only [sampleRejected,List.forall_mem_cons]
  refine ⟨?_,?_,by simp⟩
  all_goals
    rintro ⟨j,hj⟩
    cases hj

theorem sampleRejected_textKeys : ∀ n ∈ sampleRejected, n.2.DistinctTextKeys := by
  simp only [sampleRejected,List.forall_mem_cons]
  refine ⟨Platform.distinctTextKeys_fields (by decide) ?_,Platform.distinctTextKeys_fields (by decide) ?_,by simp⟩ <;>
    simp [PyVal.DistinctTextKeys,PyVal.Within]

/-- A key that becomes a string in the file -/
def sampleIntKey : PyVal := .dict [(.int 1,.int 2)]

theorem sampleIntKey_written : Node.samplePlatform.WrittenDoc sampleIntKey (.obj [([49],.num (.ofInt 2))]) := by
  have hone : Node.samplePlatform.Prints 1 := Platform.prints_of_lt (by decide)
  have htwo : Node.samplePlatform.Prints 2 := Platform.prints_of_lt (by decide)
  have hkey : Node.samplePlatform.writtenKey (.int 1) = some (Json.printInt 1) := by simp only [Platform.writtenKey,hone,if_true]
  have hvalue : Node.samplePlatform.written (.int 2) = some (.num 2) := by simp only [Platform.written,htwo,if_true]
  exact ⟨.obj [(Json.printInt 1,.num 2)],Platform.written_dict.mpr ⟨_,.cons ⟨hkey,hvalue⟩ .nil,rfl⟩,rfl⟩

/-- A file that passes, and one that does not, of a value that is rejected before it is written -/
theorem generated_conformance_passes_sample : (∃ s, Node.samplePlatform.canonicalizationConformance
      [("kelvin",.dict [(.str (py "v"),.str (py "\u212A"))])] sampleRejected = some s ∧ samplePlatform.TestsConformance s ∧
        Go.VerifiesConformance sampleNfc s 3 ∧ Node.VerifiesConformance Node.samplePlatform s 3) ∧
    ∃ s, Node.samplePlatform.canonicalizationConformance [] [("int-key",sampleIntKey)] = some s ∧
      ¬ Node.samplePlatform.Portable sampleIntKey ∧ ¬ samplePlatform.TestsConformance s := by
  obtain ⟨hexists,hpasses,hsame⟩ := @generated_conformance_passes Node.samplePlatform
    [("kelvin",.dict [(.str (py "v"),.str (py "\u212A"))])] sampleRejected sampleRejected_written
  have hrejected : ∀ n ∈ sampleRejected, ¬ Node.samplePlatform.PortableReloaded n.2 := fun n hn h =>
    sampleRejected_rejected n hn ((hsame n hn (sampleRejected_textKeys n hn)).mp h)
  obtain ⟨s,hs⟩ := hexists.mpr (by
    rintro p (_ | ⟨_,⟨⟩⟩)
    refine ⟨⟨_,rfl⟩,PyVal.within_mapping.mpr ⟨rfl,?_⟩⟩
    rintro e (_ | ⟨_,⟨⟩⟩)
    trivial)
  obtain ⟨hpython,hgo,hnode⟩ := hpasses s hs
  refine ⟨⟨s,hs,hpython.mpr hrejected,hgo.mpr hrejected,hnode.mpr hrejected⟩,?_⟩
  obtain ⟨t,ht,_⟩ := sampleIntKey_written
  obtain ⟨hexists,hpasses,_⟩ := @generated_conformance_passes Node.samplePlatform [] [("int-key",sampleIntKey)]
    (by simpa using exists_dumps.mpr ⟨t,ht⟩)
  obtain ⟨s,hs⟩ := hexists.mpr (by simp)
  refine ⟨s,hs,?_,fun hpython => (hpasses s hs).1.mp hpython _ (.head _) ?_⟩
  · rintro ⟨j,hj⟩
    cases hj
  · exact (Platform.portableReloaded_iff sampleIntKey_written).mpr ⟨_,rfl⟩

end ExecutionFinality
