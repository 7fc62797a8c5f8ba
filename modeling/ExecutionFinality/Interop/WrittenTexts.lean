import ExecutionFinality.Interop.JsonDumps

/-! JSON files as the generators write them, and that all three languages read the values back. -/
namespace ExecutionFinality
open Utf8 (Bytes)
open KeyedEntries
open JsonTree (Regular)

namespace Platform

/-- The text of a key -/
def WrittenKey (key : PyKey) (cs : List Char) : Prop := ∃ s, key = .str s ∧ s.scalars = some cs

/-- The value, which has strings for keys, is written as the document when its instances are made dictionaries. -/
def Document (pf : Platform) (v : PyVal) (t : JsonTree Int) : Prop := v.TextKeys ∧ pf.written v.asdictInner = some t

variable {pf : Platform} {v : PyVal} {t : JsonTree Int}

theorem document_seq {k : SeqKind} {xs : List PyVal} :
    pf.Document (.seq k xs) t ↔ ∃ ts, List.Forall₂ pf.Document xs ts ∧ t = .arr ts := by
  have elements (ts : List (JsonTree Int)) : List.Forall₂ pf.Document xs ts ↔
      (∀ x ∈ xs, x.TextKeys) ∧ List.Forall₂ (fun x t => pf.written x.asdictInner = some t) xs ts :=
    List.forall₂_and_left xs ts
  simp only [elements,Document,PyVal.asdictInner_seq,written_seq,List.forall₂_map_left_iff,and_assoc,exists_and_left]
  exact and_congr_left fun _ => PyVal.within_seq

theorem document_mapping {k : MapKind} {es : List (PyKey × PyVal)} : pf.Document (.mapping k es) t ↔
    ∃ ts, List.Forall₂ (fun e t => WrittenKey e.1 t.1 ∧ pf.Document e.2 t.2) es ts ∧ t = .obj ts := by
  have entry (e : PyKey × PyVal) (t : List Char × JsonTree Int) : WrittenKey e.1 t.1 ∧ pf.Document e.2 t.2 ↔
      ((∃ s, e.1 = .str s) ∧ e.2.TextKeys) ∧ pf.writtenKey e.1 = some t.1 ∧ pf.written e.2.asdictInner = some t.2 := by
    constructor
    · rintro ⟨⟨s,hs,hcs⟩,hk,ht⟩
      exact ⟨⟨⟨s,hs⟩,hk⟩,by rw [hs]; exact hcs,ht⟩
    · rintro ⟨⟨⟨s,hs⟩,hk⟩,hcs,ht⟩
      rw [hs] at hcs
      exact ⟨⟨s,hs,hcs⟩,hk,ht⟩
  have entries (ts : List (List Char × JsonTree Int)) :
      List.Forall₂ (fun e t => WrittenKey e.1 t.1 ∧ pf.Document e.2 t.2) es ts ↔
        (PyVal.mapping k es).TextKeys ∧ List.Forall₂ (fun e t =>
          pf.writtenKey e.1 = some t.1 ∧ pf.written e.2.asdictInner = some t.2) es ts := by
    simp only [entry]
    rw [List.forall₂_and_left]
    refine and_congr_left fun _ => ?_
    rw [PyVal.TextKeys,PyVal.within_mapping]
    simp only [keys,List.forall_mem_map,← forall₂_and]
    exact Iff.rfl
  simp only [entries,and_assoc,exists_and_left]
  rw [Document,PyVal.asdictInner_mapping,written_dict]
  simp only [List.forall₂_map_left_iff]

theorem Document.unique {t' : JsonTree Int} (h : pf.Document v t) (h' : pf.Document v t') : t = t' :=
  Option.some.inj (h.2.symm.trans h'.2)

/-- A document of the portable range in which no object has a key twice -/
abbrev Plain (t : JsonTree Int) : Prop := t.Regular id fun n => -maxSafeInteger ≤ n ∧ n ≤ maxSafeInteger

/-! The canonical text is the normalized text of the document. -/

theorem renders_document (v : PyVal) : ∀ s, v.Renders pf.nfc s ↔ ∃ t, pf.Document v t ∧
    t.Regular pf.nfc.run (fun n => -maxSafeInteger ≤ n ∧ n ≤ maxSafeInteger) ∧
      s = t.render id Json.printInt pf.nfc.run := by
  induction v using PyVal.recOn_members with
  | none =>
    intro s
    rw [PyVal.renders_none]
    constructor
    · rintro rfl
      exact ⟨_,⟨trivial,rfl⟩,.null,rfl⟩
    · rintro ⟨_,⟨_,⟨⟩⟩,_,rfl⟩
      rfl
  | bool b =>
    intro s
    rw [PyVal.renders_bool]
    constructor
    · rintro rfl
      exact ⟨_,⟨trivial,rfl⟩,.bool b,by cases b <;> rfl⟩
    · rintro ⟨_,⟨_,⟨⟩⟩,_,rfl⟩
      cases b <;> rfl
  | int n =>
    intro s
    rw [PyVal.renders_int]
    constructor
    · rintro ⟨hn,rfl⟩
      exact ⟨_,⟨trivial,if_pos (prints_of_safe hn)⟩,.num hn,rfl⟩
    · rintro ⟨_,⟨_,hw⟩,hreg,rfl⟩
      cases (Option.ite_none_right_eq_some.mp hw).2
      cases hreg with
      | num hn => exact ⟨hn,rfl⟩
  | text k s =>
    intro u
    rw [PyVal.renders_text]
    constructor
    · rintro ⟨cs,hs,rfl⟩
      exact ⟨_,⟨trivial,Option.map_eq_some_iff.mpr ⟨cs,hs,rfl⟩⟩,.str cs,rfl⟩
    · rintro ⟨_,⟨_,ht⟩,_,rfl⟩
      obtain ⟨cs,hs,rfl⟩ := Option.map_eq_some_iff.mp ht
      exact ⟨cs,hs,rfl⟩
  | seq k xs ih =>
    intro s
    simp only [document_seq]
    rw [← JsonTree.canon_arr_iff (fun _ _ => rfl) ih,PyVal.renders_seq]
    rfl
  | mapping k es ih =>
    intro s
    have hkey (key : PyKey) (c : List Char) : PyVal.KeyText pf.nfc key c ↔ ∃ cs, WrittenKey key cs ∧ c = pf.nfc.run cs := by
      constructor
      · rintro ⟨s,cs,hs,hcs,hc⟩
        exact ⟨cs,⟨s,hs,hcs⟩,hc.symm⟩
      · rintro ⟨cs,⟨s,hs,hcs⟩,hc⟩
        exact ⟨s,cs,hs,hcs,hc.symm⟩
    have member (m : List Char × List Char) : Json.printMember m.1 m.2 = id (Json.quote m.1) ++ id [':'] ++ m.2 := by
      simp [Json.printMember]
    simp only [document_mapping]
    rw [← JsonTree.canon_obj_iff (fun _ _ => rfl) (PyVal.Renders pf.nfc) pf.Document hkey ih,
      PyVal.renders_mapping]
    simp only [member]
    rfl
  | bytes | float | other =>
    intro s
    constructor
    · rintro ⟨j,hj,_⟩
      cases PyVal.normal_iff.mpr hj <;> contradiction
    · rintro ⟨_,⟨_,⟨⟩⟩,_⟩

theorem portableCanonicalBytes_document {pf : Node.Platform} {v : PyVal} {b : Bytes} :
    pf.portableCanonicalBytes v = .ok b ↔ ∃ t, pf.Document v t ∧
      t.Regular pf.nfc.run (fun n => -maxSafeInteger ≤ n ∧ n ≤ maxSafeInteger) ∧
        b = t.render Utf8.encode Json.printInt pf.nfc.run := by
  simp only [portableCanonicalBytes_iff,renders_document]
  constructor
  · rintro ⟨_,⟨t,ht,hreg,rfl⟩,rfl⟩
    exact ⟨t,ht,hreg,rfl⟩
  · rintro ⟨t,ht,hreg,rfl⟩
    exact ⟨_,⟨t,ht,hreg,rfl⟩,rfl⟩

/-! `json.dumps` itself -/

theorem document_of_written (h : pf.written v = some t) (hk : v.TextKeys) : pf.Document v t :=
  ⟨hk,(noInstance_of_written h).asdictInner_eq.symm ▸ h⟩

theorem Portable.document (h : pf.Portable v) : ∃ t, pf.Document v t ∧ Plain t := by
  obtain ⟨j,hj⟩ := h
  obtain ⟨t,ht,hreg,_⟩ := (renders_document v j.print).mp ⟨j,hj,rfl⟩
  exact ⟨t,ht,hreg.distinct⟩

/-- Of the portable values `json.dumps` writes those without instances. -/
theorem Portable.exists_written (h : pf.Portable v) : (∃ t, pf.written v = some t) ↔ v.NoInstance := by
  constructor
  · rintro ⟨t,ht⟩
    exact noInstance_of_written ht
  · intro hv
    obtain ⟨t,ht,_⟩ := h.document
    exact ⟨t,hv.asdictInner_eq ▸ ht.2⟩

/-! What is read of a document is what was written. -/

theorem document_reading (ht : t.Regular id pf.Prints) :
    pf.Document (PyVal.reading.value (t.doc JsonNumber.ofInt)) t := by
  refine JsonReading.read_doc (r := fun t v => pf.Document v t) ⟨trivial,rfl⟩ (fun _ => ⟨trivial,rfl⟩) (fun n hn => ?_)
    (fun s => ⟨trivial,?_⟩) (fun ts vs h => ?_) (fun es ms _ h => ?_) PyVal.reading_separates.anti ht
  · simp only [PyVal.reading,if_pos (JsonNumber.isInteger_ofInt n),JsonNumber.int_ofInt]
    exact ⟨trivial,if_pos hn⟩
  · change (PyStr.scalars (Utf16.codePoints (Utf16.encode s))).map JsonTree.str = _
    rw [scalars_codePoints.mpr rfl]
    rfl
  · exact document_seq.mpr ⟨ts,h.flip,rfl⟩
  · refine document_mapping.mpr ⟨es,List.forall₂_map_left_iff.mpr (h.flip.imp ?_),rfl⟩
    rintro ⟨_,v⟩ ⟨k,t⟩ ⟨rfl,hv⟩
    exact ⟨⟨_,rfl,scalars_codePoints.mpr rfl⟩,hv⟩

end Platform

section
variable {pf : Node.Platform} {t : JsonTree Int} {s : List Char} {b : Bytes} {p : PyVal}

/-- A file gives the canonical bytes of its document. -/
theorem portableCanonicalBytes_reading (h : pf.Document p t) (ht : t.Regular id pf.Prints) :
    pf.portableCanonicalBytes (PyVal.reading.value (t.doc JsonNumber.ofInt)) = .ok b ↔
      pf.portableCanonicalBytes p = .ok b := by
  have hread := Platform.document_reading ht
  simp only [Platform.portableCanonicalBytes_document]
  exact exists_congr fun u => and_congr_left fun _ =>
    ⟨fun hu => hread.unique hu ▸ h,fun hu => h.unique hu ▸ hread⟩

/-- All three languages read a text of a regular document as that document. -/
theorem textBytes_doc (ht : t.Regular pf.nfc.run fun n => -maxSafeInteger ≤ n ∧ n ≤ maxSafeInteger)
    (hs : JsonDoc.read s = some (t.doc JsonNumber.ofInt)) (hb : b = t.render Utf8.encode Json.printInt pf.nfc.run) :
    pf.toPlatform.TextBytes s b ∧ Go.TextBytes pf.nfc s b ∧ Node.TextBytes pf s b := by
  have hp : pf.portableCanonicalBytes (PyVal.reading.value (t.doc JsonNumber.ofInt)) = .ok b :=
    Platform.portableCanonicalBytes_document.mpr
      ⟨t,Platform.document_reading (ht.distinct.imp fun _ => Platform.prints_of_safe),ht,hb⟩
  have hz : (t.doc JsonNumber.ofInt).NoMinusZero := (JsonReading.live_doc ht.over).imp
    (fun _ ⟨m,_,hm⟩ => hm ▸ JsonNumber.ofInt_ne_minusZero m) fun _ _ => trivial
  refine ⟨(textBytes_python hs).mpr ⟨hp,fun n hn _ => ?_⟩,(textBytes_go hs).mpr (go_of_python hp hz),
    (textBytes_node hs).mpr (python_iff_node.mp hp).1⟩
  obtain ⟨m,hm,rfl⟩ := JsonReading.numbers_doc ht.over n hn
  rw [JsonNumber.int_ofInt]
  exact Platform.prints_of_safe hm

theorem text_ofInt_eq : (fun n => (JsonNumber.ofInt n).text) = Json.printInt := funext JsonNumber.text_ofInt

theorem read_dumps (h : pf.written p = some t) (hs : pf.dumps p = some s) :
    JsonDoc.read s = some (t.doc JsonNumber.ofInt) := by
  obtain ⟨u,hu,rfl⟩ := Option.map_eq_some_iff.mp hs
  cases h.symm.trans hu
  have hspells : JsonDoc.Spells (t.doc JsonNumber.ofInt) (t.indented (fun n => (JsonNumber.ofInt n).text) 0) :=
    JsonDoc.spells_indented t 0
  rw [text_ofInt_eq] at hspells
  exact JsonDoc.read_text JsonDoc.blank_nil hspells (by simp [JsonDoc.Blank,JsonDoc.blank])

theorem exists_dumps : (∃ s, pf.dumps p = some s) ↔ ∃ t, pf.written p = some t := by
  simp [Platform.dumps]

/-- A portable value survives the way through a file, whoever reads it, and so does its canonical text. An instance
of a dataclass gets into a file only as a dictionary. -/
theorem written_texts_read_back (h : pf.portableCanonicalBytes p = .ok b) :
    ((∃ s, pf.dumps p = some s) ↔ p.NoInstance) ∧ (∃ s, pf.dumps p.asdictInner = some s) ∧
    (∀ s, pf.dumps p = some s ∨ pf.dumps p.asdictInner = some s →
      pf.toPlatform.TextBytes s b ∧ Go.TextBytes pf.nfc s b ∧ Node.TextBytes pf s b) ∧
    ∃ s, b = Utf8.encode s ∧ pf.toPlatform.TextBytes s b ∧ Go.TextBytes pf.nfc s b ∧ Node.TextBytes pf s b := by
  obtain ⟨t,ht,hreg,hb⟩ := Platform.portableCanonicalBytes_document.mp h
  have hspells : JsonDoc.Spells ((t.normalize pf.nfc.run).doc JsonNumber.ofInt)
      ((t.normalize pf.nfc.run).print fun n => (JsonNumber.ofInt n).text) := JsonDoc.spells_print _
  rw [text_ofInt_eq] at hspells
  have hcanonical := JsonDoc.read_text JsonDoc.blank_nil hspells JsonDoc.blank_nil
  rw [List.nil_append,List.append_nil] at hcanonical
  refine ⟨?_,exists_dumps.mpr ⟨t,ht.2⟩,fun s hs => ?_,_,hb,
    textBytes_doc (hreg.normalize pf.nfc.idempotent) hcanonical ?_⟩
  · obtain ⟨j,hj,_⟩ := Platform.portableCanonicalBytes_eq_ok.mp h
    exact exists_dumps.trans (Platform.Portable.exists_written ⟨j,hj⟩)
  · have hs' : pf.dumps p.asdictInner = some s := by
      rcases hs with hs | hs
      · obtain ⟨u,hu⟩ := exists_dumps.mp ⟨s,hs⟩
        rwa [(Platform.noInstance_of_written hu).asdictInner_eq]
      · exact hs
    exact textBytes_doc hreg (read_dumps ht.2 hs') hb
  · rw [hb,JsonTree.render,JsonTree.render,JsonTree.normalize_normalize pf.nfc.idempotent]

/-- A tuple in a dictionary, with a string that is escaped, and an instance beside it -/
theorem written_texts_read_back_sample : ∃ (p : PyVal) (b : Bytes), ¬ p.NoInstance ∧
    (¬ ∃ s, samplePlatform.dumps p = some s) ∧ ∃ s, samplePlatform.dumps p.asdictInner = some s ∧
      samplePlatform.TextBytes s b ∧ Go.TextBytes sampleNfc s b ∧ Node.TextBytes Node.samplePlatform s b := by
  have prints : ∀ n ∈ [(-7 : Int),1], Node.samplePlatform.toPlatform.Prints n := by
    intro n hn
    simp only [List.mem_cons,List.not_mem_nil,or_false] at hn
    rcases hn with rfl | rfl <;> exact Platform.prints_of_lt (by decide)
  have hp : Node.samplePlatform.portableCanonicalBytes (.dict [(.str (py "k"),.tuple [.int (-7),.str (py "\n")]),
      (.str (py "r"),.dataclass [(.str (py "n"),.int 1)])]) = .ok _ :=
    Platform.portableCanonicalBytes_eq_ok.mpr ⟨_,rfl,prints,rfl⟩
  obtain ⟨hplain,⟨s,hs⟩,htexts,_⟩ := written_texts_read_back hp
  have hinstance : ¬ PyVal.NoInstance (.dict [(.str (py "k"),.tuple [.int (-7),.str (py "\n")]),
      (.str (py "r"),.dataclass [(.str (py "n"),.int 1)])]) :=
    fun h => absurd (PyVal.within_mapping.mp ((PyVal.within_mapping.mp h).2 _ (.tail _ (.head _)))).1 (by decide)
  exact ⟨_,_,hinstance,fun h => hinstance (hplain.mp h),s,hs,htexts s (.inr hs)⟩

end
end ExecutionFinality
