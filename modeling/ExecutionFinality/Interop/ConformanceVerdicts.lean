import ExecutionFinality.Interop.VectorVerdicts

/-! What the runners of the three languages make of one conformance file: values that have to have given canonical
texts, and values that have to be rejected. -/
namespace ExecutionFinality
open Utf8 (Bytes)
open KeyedEntries
open CheckChains
open JsonDoc (Live)
open Utf16 (Scalar)
open Go (Named)

/-! `portable_canonical_bytes` raises nothing but `CanonicalizationError`. -/

def Exn.IsCanonicalizationError : Exn → Prop
  | .canonicalizationError _ => True
  | _ => False

@[simp] theorem Exn.isCanonicalizationError {t : PyStr} : (Exn.canonicalizationError t).IsCanonicalizationError := trivial

namespace PyVal
variable {nfc : Nfc} {portable : Bool}

private theorem rejects_normalizeText {message : String} {s : PyStr} :
    RaisesOnly Exn.IsCanonicalizationError (normalizeText nfc message s) := by
  unfold normalizeText
  split <;> simp

private theorem rejects_normalizeItems {xs : List PyVal}
    (h : ∀ x ∈ xs, RaisesOnly Exn.IsCanonicalizationError (normalize nfc portable x)) :
    RaisesOnly Exn.IsCanonicalizationError (normalizeItems nfc portable xs) := by
  induction xs with
  | nil => simp [normalizeItems]
  | cons x xs ih =>
    have hxs := ih fun y hy => h y (List.mem_cons_of_mem _ hy)
    simp [normalizeItems,h x List.mem_cons_self,hxs]

private theorem rejects_normalizeEntries {es : List (PyKey × PyVal)}
    (h : ∀ e ∈ es, RaisesOnly Exn.IsCanonicalizationError (normalize nfc portable e.2)) (out : List (List Char × Json)) :
    RaisesOnly Exn.IsCanonicalizationError (normalizeEntries nfc portable es out) := by
  induction es generalizing out with
  | nil => simp [normalizeEntries]
  | cons e es ih =>
    have he := h e List.mem_cons_self
    have hes := ih fun f hf => h f (List.mem_cons_of_mem _ hf)
    obtain ⟨key,val⟩ := e
    cases key with
    | str => simp [normalizeEntries,rejects_normalizeText,he,hes]
    | _ => simp [normalizeEntries]

theorem rejects_normalize (v : PyVal) : RaisesOnly Exn.IsCanonicalizationError (normalize nfc portable v) := by
  induction v using recOn_members with
  | seq _ xs ih => simp [normalize,rejects_normalizeItems ih]
  | mapping _ es ih => simp [normalize,rejects_normalizeEntries ih]
  | text => simp [normalize,rejects_normalizeText]
  | _ => simp [normalize]

end PyVal

theorem Platform.rejects_portableCanonicalBytes {pf : Platform} {v : PyVal} :
    RaisesOnly Exn.IsCanonicalizationError (pf.portableCanonicalBytes v) := by
  have hprints (j : Json) (hj : v.normalize pf.nfc true = .ok j) : ∀ n ∈ j.ints, pf.Prints n :=
    fun n hn => prints_of_safe ((PyVal.normalize_portable v j hj).2 n hn)
  unfold portableCanonicalBytes dump
  refine raisesOnly_bind.mpr ⟨PyVal.rejects_normalize v,fun j hj => raisesOnly_bind.mpr ⟨?_,fun _ _ => raisesOnly_pure⟩⟩
  exact raisesOnly_failIf.mpr fun h => absurd (hprints j hj) h

/-! Values on which the three languages agree -/

/-- The number is not spelled so that some of the languages take it and others do not: it is not `-0`, and when it is
not spelled as an integer, it is no safe integer to Node either. -/
def JsonNumber.Unambiguous (n : JsonNumber) : Prop :=
  n ≠ .minusZero ∧ (n.IsInteger ∨ ¬ ∃ m : Int, |m| ≤ Node.maxSafeInteger ∧ Binary64.round n.value = .finite m)

/-- No number and no string that stays is read in different ways. -/
def JsonDoc.Unambiguous (d : JsonDoc) : Prop := d.Live JsonNumber.Unambiguous Scalar

namespace JsonDoc.Unambiguous
variable {d : JsonDoc} {pf : Node.Platform} {b : Bytes}

theorem noMinusZero (h : d.Unambiguous) : d.NoMinusZero := h.imp (fun _ hn => hn.1) fun _ _ => trivial

theorem scalarText (h : d.Unambiguous) : d.ScalarText := h.imp (fun _ _ => trivial) fun _ hu => hu

theorem node_iff (h : d.Unambiguous) : Node.canonicalBytes pf (Node.reading.value d) = .ok b ↔
    pf.portableCanonicalBytes (PyVal.reading.value d) = .ok b := by
  rw [python_iff_node]
  refine ⟨fun hn => ⟨hn,?_⟩,And.left⟩
  obtain ⟨u,hu,_⟩ := Node.canonicalBytes_eq_ok.mp hn
  have hnumbers : d.Live JsonNumber.Unambiguous fun _ => True := h.imp (fun _ hn => hn) fun _ _ => trivial
  exact (Node.live_of_canonical hnumbers ⟨u,hu⟩).imp (fun n hn => hn.1.2.resolve_right fun hs => hs hn.2) fun _ _ => trivial

theorem go_iff (h : d.Unambiguous) : Go.canonical pf.nfc (Go.reading.value d) = .ok b ↔
    pf.portableCanonicalBytes (PyVal.reading.value d) = .ok b :=
  ⟨fun hg => python_of_go hg h.noMinusZero h.scalarText,fun hp => go_of_python hp h.noMinusZero⟩

end JsonDoc.Unambiguous

/-! Positive cases -/

structure PositiveCase where
  id : List UInt16
  value : JsonDoc
  canonical : List UInt16

namespace PositiveCase
variable {c : PositiveCase} {d : JsonDoc} {pf : Node.Platform}

def fields (c : PositiveCase) : List (String × JsonDoc) :=
  [("id",.str c.id),("value",c.value),("canonical_utf8",.str c.canonical)]

def WrittenAs (c : PositiveCase) (d : JsonDoc) : Prop := Go.HasMembers c.fields d

def go (c : PositiveCase) : Go.Positive := ⟨Go.text c.id,Go.reading.value c.value,Go.text c.canonical⟩

/-- The canonical text of the case is that of its value. -/
def Holds (pf : Platform) (c : PositiveCase) : Prop := ∃ cs, c.canonical = Utf16.encode cs ∧
  pf.portableCanonicalBytes (PyVal.reading.value c.value) = .ok (Utf8.encode cs)

theorem WrittenAs.decode (h : c.WrittenAs d) (u : Go.Positive) : Go.Positive.type.decode d u = some c.go := by
  refine Go.HasMembers.decode (S := fun n v => (n = "id" → v.id = c.go.id) ∧ (n = "value" → v.value = c.go.value) ∧
    (n = "canonical_utf8" → v.canonical = c.go.canonical)) h (by decide) ?_ (fun w hw => ?_) u
  · simp only [Go.Positive.type,List.forall_mem_cons]
    refine ⟨⟨.str c.id,.head _,fun _ => ⟨_,rfl,?_⟩⟩,⟨c.value,.tail _ (.head _),fun _ => ⟨_,rfl,?_⟩⟩,
      ⟨.str c.canonical,by simp [fields],fun _ => ⟨_,rfl,?_⟩⟩,by simp⟩ <;> grind [go]
  · simp only [Go.Positive.type,List.forall_mem_cons] at hw
    obtain ⟨⟨hid,_⟩,⟨_,hvalue,_⟩,⟨_,_,hcanonical⟩,_⟩ := hw
    exact Go.Positive.ext (hid trivial) (hvalue trivial) (hcanonical trivial)

theorem WrittenAs.python (h : c.WrittenAs d) :
    pf.toPlatform.testPythonCanonicalizationConformancePositive (PyVal.reading.value d) = some () ↔
      c.Holds pf.toPlatform := by
  obtain ⟨es,rfl,hes⟩ := h
  simp only [fields,List.forall_mem_cons] at hes
  obtain ⟨_,hvalue,hcanonical,_⟩ := hes
  simp only [Platform.testPythonCanonicalizationConformancePositive,item_of_named hvalue,item_of_named hcanonical,
    Option.bind_eq_bind,Option.bind_some,Option.bind_eq_some_iff,toOption_eq_some,Option.guard_eq_some',
    eqStr_reading,Holds]
  constructor
  · rintro ⟨b,hb,cs,hcs,hc⟩
    exact ⟨cs,hc,Utf8.decode_eq_some hcs ▸ hb⟩
  · rintro ⟨cs,hc,hb⟩
    exact ⟨_,hb,cs,Utf8.decode_encode cs,hc⟩

theorem WrittenAs.node (h : c.WrittenAs d) (hv : c.value.Unambiguous) :
    Node.checkPositive pf (Node.reading.value d) = .ok () ↔ c.Holds pf.toPlatform := by
  obtain ⟨es,rfl,hes⟩ := h
  simp only [fields,List.forall_mem_cons] at hes
  obtain ⟨_,hvalue,hcanonical,_⟩ := hes
  have string (u : List UInt16) : Node.reading.value (.str u) = .string u := rfl
  simp only [Node.checkPositive,get_of_named hvalue,field_of_named hcanonical,ok_bind,bind_eq_ok,Node.throwUnless_eq_ok,
    string,Node.string_strictEq,JsVal.string.injEq,Holds,← hv.node_iff,Node.canonicalBytes_eq_ok]
  constructor
  · rintro ⟨s,hs,hc⟩
    obtain ⟨cs,rfl⟩ := Node.scalar_canonical _ s hs
    exact ⟨cs,hc,_,hs,(Node.utf8_encode cs).symm⟩
  · rintro ⟨cs,hc,s,hs,hb⟩
    obtain ⟨cs',rfl⟩ := Node.scalar_canonical _ s hs
    cases Utf8.encode_injective (hb.trans (Node.utf8_encode cs'))
    exact ⟨_,hs,hc⟩

theorem checkPositive_go (hv : c.value.Unambiguous) (hc : Scalar c.canonical) :
    Go.checkPositive pf.nfc c.go = .ok () ↔ c.Holds pf.toPlatform := by
  obtain ⟨cs,hc⟩ := hc
  have htext : Go.text c.canonical = Utf8.encode cs := by rw [hc,Go.text,Utf16.decode_encode]
  simp only [Go.checkPositive,bind_eq_ok,Go.mapError_eq_ok,failIf_eq_ok,not_not]
  constructor
  · rintro ⟨_,hb,rfl⟩
    exact ⟨cs,hc,hv.go_iff.mp (htext ▸ hb)⟩
  · rintro ⟨cs',hc',hb⟩
    cases Utf16.encode_injective (hc.symm.trans hc')
    exact ⟨_,hv.go_iff.mpr hb,htext.symm⟩

end PositiveCase

/-! Negative cases -/

structure NegativeCase where
  id : List UInt16
  value : JsonDoc

namespace NegativeCase
variable {c : NegativeCase} {d : JsonDoc} {pf : Node.Platform}

def fields (c : NegativeCase) : List (String × JsonDoc) := [("id",.str c.id),("value",c.value)]

def WrittenAs (c : NegativeCase) (d : JsonDoc) : Prop := Go.HasMembers c.fields d

def go (c : NegativeCase) : Go.Negative := ⟨Go.text c.id,Go.reading.value c.value⟩

/-- The value is rejected. -/
def Holds (pf : Platform) (c : NegativeCase) : Prop :=
  ¬ ∃ b, pf.portableCanonicalBytes (PyVal.reading.value c.value) = .ok b

theorem WrittenAs.decode (h : c.WrittenAs d) (u : Go.Negative) : Go.Negative.type.decode d u = some c.go := by
  refine Go.HasMembers.decode (S := fun n v => (n = "id" → v.id = c.go.id) ∧ (n = "value" → v.value = c.go.value)) h
    (by decide) ?_ (fun w hw => ?_) u
  · simp only [Go.Negative.type,List.forall_mem_cons]
    refine ⟨⟨.str c.id,.head _,fun _ => ⟨_,rfl,?_⟩⟩,⟨c.value,.tail _ (.head _),fun _ => ⟨_,rfl,?_⟩⟩,by simp⟩ <;> grind [go]
  · simp only [Go.Negative.type,List.forall_mem_cons] at hw
    obtain ⟨⟨hid,_⟩,⟨_,hvalue⟩,_⟩ := hw
    exact Go.Negative.ext (hid trivial) (hvalue trivial)

theorem WrittenAs.python (h : c.WrittenAs d) :
    pf.toPlatform.testPythonCanonicalizationConformanceNegative (PyVal.reading.value d) = some () ↔
      c.Holds pf.toPlatform := by
  obtain ⟨es,rfl,hes⟩ := h
  have hvalue : Named es "value" c.value := hes ("value",c.value) (.tail _ (.head _))
  simp only [Platform.testPythonCanonicalizationConformanceNegative,item_of_named hvalue,Option.bind_eq_bind,
    Option.bind_some,Holds]
  have hraises := @Platform.rejects_portableCanonicalBytes pf.toPlatform (PyVal.reading.value c.value)
  cases he : pf.portableCanonicalBytes (PyVal.reading.value c.value) with
  | ok b => simp
  | error e =>
    cases e with
    | canonicalizationError => simp
    | _ => exact (hraises _ he).elim

theorem WrittenAs.node (h : c.WrittenAs d) (hv : c.value.Unambiguous) :
    Node.checkNegative pf (Node.reading.value d) = .ok () ↔ c.Holds pf.toPlatform := by
  obtain ⟨es,rfl,hes⟩ := h
  have hvalue : Named es "value" c.value := hes ("value",c.value) (.tail _ (.head _))
  simp only [Node.checkNegative_eq_ok (get_of_named hvalue),hv.node_iff,Holds]

theorem checkNegative_go (hv : c.value.Unambiguous) : Go.checkNegative pf.nfc c.go = .ok () ↔ c.Holds pf.toPlatform := by
  rw [Go.checkNegative_eq_ok]
  simp only [go,hv.go_iff,Holds]

end NegativeCase

/-! A file of cases -/

def ConformanceFile (ps : List PositiveCase) (ns : List NegativeCase) (d : JsonDoc) : Prop :=
  ∃ es xs ys, d = .obj es ∧ Named es "positive" (.arr xs) ∧ Named es "negative" (.arr ys) ∧
    List.Forall₂ PositiveCase.WrittenAs ps xs ∧ List.Forall₂ NegativeCase.WrittenAs ns ys

def Platform.TestsConformance (pf : Platform) (s : List Char) : Prop :=
  ∃ conf, pf.loads s = some conf ∧ pf.conformanceTests conf = some ()

def Go.VerifiesConformance (nfc : Nfc) (s : List Char) (n : Nat) : Prop :=
  ∃ cases, Cases.type.decodeText s = some cases ∧ canonicalconformance nfc cases =
    .ok (go "Go canonicalization conformance verified " ++ decimal n ++ go "/" ++ decimal n ++ go " cases")

/-- The total is a sum of floating point numbers. -/
def Node.VerifiesConformance (pf : Platform) (s : List Char) (n : Nat) : Prop :=
  ∃ cases, parse s = some cases ∧ canonicalConformance pf cases = .ok (js "Node canonicalization conformance verified " ++
    decimal pf n ++ js "/" ++ pf.numberToString (Binary64.round (n : Int)) ++ js " cases")

section
variable {pf : Node.Platform} {ps : List PositiveCase} {ns : List NegativeCase} {d : JsonDoc} {s : List Char}

theorem testsConformance_iff (h : JsonDoc.read s = some d) (hd : ConformanceFile ps ns d) :
    pf.toPlatform.TestsConformance s ↔ ((∀ c ∈ ps, c.Holds pf.toPlatform) ∧ ∀ c ∈ ns, c.Holds pf.toPlatform) ∧
      pf.toPlatform.PrintsLiterals d := by
  obtain ⟨es,xs,ys,rfl,hpositive,hnegative,hps,hns⟩ := hd
  have htests : pf.toPlatform.conformanceTests (PyVal.reading.value (.obj es)) = some () ↔
      (∀ c ∈ ps, c.Holds pf.toPlatform) ∧ ∀ c ∈ ns, c.Holds pf.toPlatform := by
    simp only [Platform.conformanceTests,item_of_named hpositive,item_of_named hnegative,Option.bind_eq_bind,
      Option.bind_some,Option.bind_eq_some_iff]
    rw [Unique.exists_iff]
    exact and_congr (parametrized_iff hps (fun c x hc => ⟨_,hc.member (.head _)⟩) fun c x hc => hc.python)
      (parametrized_iff hns (fun c x hc => ⟨_,hc.member (.head _)⟩) fun c x hc => hc.python)
  simp only [Platform.TestsConformance,loads_eq_some h]
  constructor
  · rintro ⟨_,⟨hl,rfl⟩,ht⟩
    exact ⟨htests.mp ht,hl⟩
  · rintro ⟨ht,hl⟩
    exact ⟨_,⟨hl,rfl⟩,htests.mpr ht⟩

theorem node_verifiesConformance_iff (h : JsonDoc.read s = some d) (hd : ConformanceFile ps ns d)
    (hps : ∀ c ∈ ps, c.value.Unambiguous) (hns : ∀ c ∈ ns, c.value.Unambiguous) :
    Node.VerifiesConformance pf s (ps.length + ns.length) ↔
      (∀ c ∈ ps, c.Holds pf.toPlatform) ∧ ∀ c ∈ ns, c.Holds pf.toPlatform := by
  obtain ⟨es,xs,ys,rfl,hpositive,hnegative,hp,hn⟩ := hd
  have hparse : Node.parse s = some (Node.reading.value (.obj es)) := by rw [Node.parse,h,Option.map_some]
  have hvs : Node.get (Node.reading.value (.obj es)) "positive" = .ok (.array (xs.map Node.reading.value)) := by
    rw [get_of_named hpositive,JsonReading.value_arr]
    rfl
  have hws : Node.field (Node.reading.value (.obj es)) "negative" = .array (ys.map Node.reading.value) := by
    rw [field_of_named hnegative,JsonReading.value_arr]
    rfl
  simp only [Node.VerifiesConformance,hparse,Option.some.injEq,exists_eq_left']
  rw [Node.canonicalConformance_eq_ok hvs hws
    (by rw [List.length_map,List.length_map,hp.length_eq,hn.length_eq]),List.forall_mem_map,List.forall_mem_map]
  refine and_congr (forall_mem_iff (forall₂_imp_of_mem (fun c hc x h => And.intro (hps c hc) h) hp) ?_).symm
    (forall_mem_iff (forall₂_imp_of_mem (fun c hc x h => And.intro (hns c hc) h) hn) ?_).symm
  · exact fun c x hc => (hc.2.node hc.1).symm
  · exact fun c x hc => (hc.2.node hc.1).symm

theorem ConformanceFile.decode (h : ConformanceFile ps ns d) : ∃ cases, Go.Cases.type.decode d Go.Cases.type.zero =
    some cases ∧ cases.positive.elements = ps.map PositiveCase.go ∧ cases.negative.elements = ns.map NegativeCase.go := by
  obtain ⟨es,xs,ys,rfl,hpositive,hnegative,hps,hns⟩ := h
  have hp : List.Forall₂ (fun x v => ∀ u, Go.Positive.type.decode x u = some v) xs (ps.map PositiveCase.go) := by
    rw [List.forall₂_map_right_iff]
    exact hps.flip.imp fun _ _ hc => PositiveCase.WrittenAs.decode hc
  have hn : List.Forall₂ (fun x v => ∀ u, Go.Negative.type.decode x u = some v) ys (ns.map NegativeCase.go) := by
    rw [List.forall₂_map_right_iff]
    exact hns.flip.imp fun _ _ hc => NegativeCase.WrittenAs.decode hc
  obtain ⟨w,hw,hall⟩ := Go.StructType.exists_decode (T := Go.Cases.type) (S := fun n v =>
    (n = "positive" → v.positive.elements = ps.map PositiveCase.go) ∧
      (n = "negative" → v.negative.elements = ns.map NegativeCase.go)) (by decide)
    (by
      simp only [Go.Cases.type,List.forall_mem_cons]
      refine ⟨⟨_,hpositive,fun v => ?_⟩,⟨_,hnegative,fun v => ?_⟩,by simp⟩
      · obtain ⟨t,ht,hts⟩ := Go.StructType.exists_decodeSlice hp v.positive
        refine ⟨{ v with positive := t },by rw [ht]; rfl,?_⟩
        grind
      · obtain ⟨t,ht,hts⟩ := Go.StructType.exists_decodeSlice hn v.negative
        refine ⟨{ v with negative := t },by rw [ht]; rfl,?_⟩
        grind) Go.Cases.type.zero
  simp only [Go.Cases.type,List.forall_mem_cons] at hall
  exact ⟨w,hw,hall.1.1 trivial,hall.2.1.2 trivial⟩

theorem go_verifiesConformance_iff (h : JsonDoc.read s = some d) (hd : ConformanceFile ps ns d)
    (hps : ∀ c ∈ ps, c.value.Unambiguous ∧ Scalar c.canonical) (hns : ∀ c ∈ ns, c.value.Unambiguous) :
    Go.VerifiesConformance pf.nfc s (ps.length + ns.length) ↔
      (∀ c ∈ ps, c.Holds pf.toPlatform) ∧ ∀ c ∈ ns, c.Holds pf.toPlatform := by
  obtain ⟨r,hr⟩ := readFirst_of_read h
  obtain ⟨cases,hdecode,hpositive,hnegative⟩ := hd.decode
  have htext : Go.Cases.type.decodeText s = some cases := by
    rw [Go.StructType.decodeText,hr]
    exact hdecode
  simp only [Go.VerifiesConformance,htext,Option.some.injEq,exists_eq_left']
  rw [Go.canonicalconformance_eq_ok (by rw [hpositive,hnegative,List.length_map,List.length_map]),hpositive,hnegative,
    List.forall_mem_map,List.forall_mem_map]
  exact and_congr (forall₂_congr fun c hc => c.checkPositive_go (hps c hc).1 (hps c hc).2)
    (forall₂_congr fun c hc => c.checkNegative_go (hns c hc))

/-- The runners of the three languages pass the same conformance files, where no value is read in different ways. -/
theorem conformance_verdicts_agree (h : JsonDoc.read s = some d) (hd : ConformanceFile ps ns d)
    (hps : ∀ c ∈ ps, c.value.Unambiguous ∧ Scalar c.canonical) (hns : ∀ c ∈ ns, c.value.Unambiguous) :
    (pf.toPlatform.TestsConformance s ↔
      Node.VerifiesConformance pf s (ps.length + ns.length) ∧ pf.toPlatform.PrintsLiterals d) ∧
    (Go.VerifiesConformance pf.nfc s (ps.length + ns.length) ↔ Node.VerifiesConformance pf s (ps.length + ns.length)) := by
  rw [testsConformance_iff h hd,node_verifiesConformance_iff h hd (fun c hc => (hps c hc).1) hns,
    go_verifiesConformance_iff h hd hps hns]
  exact ⟨Iff.rfl,Iff.rfl⟩

end

/-- A fraction and an integer out of the range have to be rejected. -/
def sampleConformanceText : List Char := ("\x7b\"positive\":[\x7b\"id\":\"k\",\"value\":\"\\u212a\",\"canonical_utf8\":\"\\\"K\\\"\"\x7d]," ++
  "\"negative\":[\x7b\"id\":\"f\",\"value\":1.5\x7d,\x7b\"id\":\"i\",\"value\":9007199254740992\x7d]\x7d").toList

def samplePositive : PositiveCase := ⟨js "k",.str [0x212a],js "\"K\""⟩

def sampleNegatives : List NegativeCase :=
  [⟨js "f",.num ⟨false,1,[JsonDoc.digit '5'],none⟩⟩,⟨js "i",.num (.ofInt 9007199254740992)⟩]

def sampleConformanceDoc : JsonDoc :=
  .obj [(js "positive",.arr [.obj [(js "id",.str (js "k")),(js "value",.str [0x212a]),(js "canonical_utf8",.str (js "\"K\""))]]),
    (js "negative",.arr [.obj [(js "id",.str (js "f")),(js "value",.num ⟨false,1,[JsonDoc.digit '5'],none⟩)],
      .obj [(js "id",.str (js "i")),(js "value",.num (.ofInt 9007199254740992))]])]

theorem samplePlatform_prints : samplePlatform.Prints 9007199254740992 :=
  .inr (Nat.lt_of_lt_of_le (by decide : (9007199254740992 : Int).natAbs < 10^16)
    (Nat.pow_le_pow_right (by decide) (by decide)))

set_option maxRecDepth 4000 in
theorem read_sampleConformanceText : JsonDoc.read sampleConformanceText = some sampleConformanceDoc := rfl

theorem sampleConformanceDoc_file : ConformanceFile [samplePositive] sampleNegatives sampleConformanceDoc := by
  refine ⟨_,_,_,rfl,rfl,rfl,.cons ⟨_,rfl,?_⟩ .nil,.cons ⟨_,rfl,?_⟩ (.cons ⟨_,rfl,?_⟩ .nil)⟩
  · simp only [PositiveCase.fields,List.forall_mem_cons]
    exact ⟨rfl,rfl,rfl,by simp⟩
  all_goals
    simp only [NegativeCase.fields,List.forall_mem_cons]
    exact ⟨rfl,rfl,by simp⟩

theorem samplePositive_unambiguous : samplePositive.value.Unambiguous ∧ Scalar samplePositive.canonical :=
  ⟨.str ⟨['\u212a'],rfl⟩,⟨_,rfl⟩⟩

theorem sampleNegatives_unambiguous : ∀ c ∈ sampleNegatives, c.value.Unambiguous := by
  simp only [sampleNegatives,List.forall_mem_cons]
  refine ⟨.num ⟨by decide,.inr ?_⟩,.num ⟨JsonNumber.ofInt_ne_minusZero _,.inl (JsonNumber.isInteger_ofInt _)⟩,by simp⟩
  rintro ⟨m,_,hm⟩
  have hround : Binary64.round (JsonNumber.value ⟨false,1,[JsonDoc.digit '5'],none⟩) = .finite (3 / 2) := by decide +kernel
  have hden : (3 / 2 : ℚ).den = (m : ℚ).den := congrArg Rat.den (Binary64.finite.inj (hround.symm.trans hm))
  rw [Rat.den_intCast] at hden
  exact absurd hden (by decide +kernel)

theorem conformance_verdicts_agree_sample : samplePlatform.TestsConformance sampleConformanceText ∧
    Go.VerifiesConformance sampleNfc sampleConformanceText 3 ∧
    Node.VerifiesConformance Node.samplePlatform sampleConformanceText 3 := by
  obtain ⟨hpython,hgo⟩ := @conformance_verdicts_agree Node.samplePlatform [samplePositive] sampleNegatives
    sampleConformanceDoc sampleConformanceText read_sampleConformanceText sampleConformanceDoc_file
    (by rintro _ (_ | ⟨_,⟨⟩⟩); exact samplePositive_unambiguous) sampleNegatives_unambiguous
  have htests : samplePlatform.TestsConformance sampleConformanceText := by
    refine (@testsConformance_iff Node.samplePlatform _ _ _ _ read_sampleConformanceText sampleConformanceDoc_file).mpr
      ⟨⟨?_,?_⟩,?_⟩
    · rintro _ (_ | ⟨_,⟨⟩⟩)
      exact ⟨_,rfl,rfl⟩
    · simp only [sampleNegatives,List.forall_mem_cons]
      refine ⟨?_,?_,by simp⟩
      · rintro ⟨b,hb⟩
        cases hb
      · rintro ⟨b,hb⟩
        obtain ⟨j,hj,_⟩ := Platform.portableCanonicalBytes_eq_ok.mp hb
        exact absurd (Platform.portable_int.mp ⟨j,hj⟩).2 (by decide)
    · intro n hn hi
      rcases List.mem_cons.mp hn with rfl | hn
      · cases hi.1
      · cases List.mem_singleton.mp hn
        exact samplePlatform_prints
  have hnode := (hpython.mp htests).1
  exact ⟨htests,hgo.mpr hnode,hnode⟩

end ExecutionFinality
