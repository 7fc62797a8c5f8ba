import ExecutionFinality.Interop.JsonTexts

/-! Which JSON texts the three canonicalizers read as the same data. -/
namespace ExecutionFinality
open Utf8 (Bytes)
open KeyedEntries
open JsonDoc (Live)
open JsonTree (Meets)
open Utf16 (Scalar)

namespace JsonDoc

/-- Every number that stays is spelled as an integer. -/
def PlainIntegers (d : JsonDoc) : Prop := d.Live JsonNumber.IsInteger fun _ => True

/-- No number that stays is `-0`. -/
def NoMinusZero (d : JsonDoc) : Prop := d.Live (· ≠ .minusZero) fun _ => True

/-- No string or key that stays has an unpaired surrogate. -/
def ScalarText (d : JsonDoc) : Prop := d.Live (fun _ => True) Scalar

end JsonDoc

/-- No integer literal, whether it stays or not, is beyond the digit limit. -/
def Platform.PrintsLiterals (pf : Platform) (d : JsonDoc) : Prop := ∀ n ∈ d.numbers, n.IsInteger → pf.Prints n.int

variable {d : JsonDoc} {s : List Char} {nfc : Nfc} {pf : Node.Platform} {b : Bytes}

namespace Go

/-- What the decoder yields -/
theorem decoded_value {token : JsonNumber → List Char} (ht : ∀ n, NumberToken (token n)) (d : JsonDoc) :
    Decoded ((readingWith token).value d) := by
  refine JsonReading.holds (p := Decoded) ?_ ?_ ?_ ?_ ?_ ?_ d
  · exact .nil
  · exact .bool
  · exact fun n => .number (ht n)
  · exact fun u => .string _
  · exact fun vs h => .slice h
  · refine fun ms hn h => .map hn (fun m hm => ?_) fun m hm => (h m hm).2
    obtain ⟨k,hk⟩ := (h m hm).1
    exact ⟨_,hk⟩

/-- The document of what the decoder yields -/
def treeReading (numeral : JsonNumber → Numeral) : JsonReading (List Char) (JsonTree Numeral) where
  null := .null
  bool := .bool
  num n := .num (numeral n)
  str u := .str (Utf16.decode u)
  arr := .arr
  key := Utf16.decode
  obj := .obj

theorem treeReading_separates {numeral : JsonNumber → Numeral} : (treeReading numeral).Separates Scalar :=
  fun _ _ hk hl h => hk.decode_injective hl h

theorem document_value {numeral : JsonNumber → Numeral} {token : JsonNumber → List Char}
    (h : d.Live (fun n => token n = (numeral n).text) Scalar) :
    document ((readingWith token).value d) = some ((treeReading numeral).value d) := by
  refine JsonReading.related (r := fun g t => document g = some t) ?_ ?_ (fun n hn => ?_) (fun u _ => ?_)
    (fun vs ts h => ?_) (fun ms ns _ _ h => ?_) reading_separates treeReading_separates h
  · rfl
  · exact fun _ => rfl
  · change (numeral? (Utf8.encode (token n))).map JsonTree.num = some (.num (numeral n))
    rw [hn,numeral?_eq_some.mpr rfl]
    rfl
  · change (Utf8.decode (Utf8.encode (Utf16.decode u))).map JsonTree.str = some (.str (Utf16.decode u))
    rw [Utf8.decode_encode]
    rfl
  · exact document_slice.mpr ⟨ts,h,rfl⟩
  · refine document_map.mpr ⟨ns,h.imp ?_,rfl⟩
    rintro ⟨_,v⟩ ⟨_,t⟩ ⟨⟨k,_,rfl,rfl⟩,ht⟩
    exact ⟨Utf8.decode_encode _,ht⟩

/-- The token of an integer of the grammar -/
def numeral (n : JsonNumber) : Numeral := if n = .minusZero then .negativeZero else .int n.int

theorem text_numeral {n : JsonNumber} (h : n.IsInteger) : n.text = (numeral n).text := by
  unfold numeral
  split_ifs with hz
  · rw [hz]
    decide
  · exact JsonNumber.text_of_isInteger h hz

/-- A `-0` that stays meets a `0` in the document in which every integer has its plain spelling. -/
theorem noMinusZero_of_not_meets {f : List Char → List Char} (hd : d.Live (fun _ => True) Scalar)
    (h : ¬ Meets (fun m n => m = .int 0 ∧ n = .negativeZero ∨ m = .negativeZero ∧ n = .int 0) f
      ((treeReading numeral).value d) ((treeReading fun n => .int n.int).value d)) : d.NoMinusZero := by
  induction hd with
  | null => exact .null
  | bool b => exact .bool b
  | str => exact .str trivial
  | num =>
    refine .num fun hz => h (.num (.inr ?_))
    subst hz
    exact ⟨rfl,rfl⟩
  | @arr xs _ ih =>
    rw [JsonReading.value_arr,JsonReading.value_arr] at h
    refine .arr fun x hx => ih x hx fun hm => h (.element (p := (_,_)) ?_ hm)
    rw [List.zip_map']
    exact List.mem_map_of_mem hx
  | @obj es hk _ ih =>
    rw [JsonReading.value_obj treeReading_separates hk,JsonReading.value_obj treeReading_separates hk] at h
    exact .obj (fun _ _ => trivial) fun e he =>
      ih e he fun hm => h (.member (List.mem_map_of_mem he) (List.mem_map_of_mem he) rfl hm)

end Go

/-! The canonical bytes of one document in the three languages -/

theorem safe_of_python (h : pf.portableCanonicalBytes (PyVal.reading.value d) = .ok b) :
    d.Live JsonNumber.Safe Scalar := by
  obtain ⟨j,hj,_⟩ := Platform.portableCanonicalBytes_eq_ok.mp h
  exact PyVal.live_of_portable ⟨j,hj⟩

theorem python_iff_node : pf.portableCanonicalBytes (PyVal.reading.value d) = .ok b ↔
    Node.canonicalBytes pf (Node.reading.value d) = .ok b ∧ d.PlainIntegers := by
  have same (h : d.Live JsonNumber.Safe Scalar) : Node.canonicalBytes pf (Node.reading.value d) = .ok b ↔
      pf.portableCanonicalBytes (PyVal.reading.value d) = .ok b :=
    nodeCanonicalBytes_iff (nodeValue_reading (h.imp (fun _ => id) fun _ _ => trivial))
  constructor
  · intro h
    have hd := safe_of_python h
    exact ⟨(same hd).mpr h,hd.imp (fun _ hn => hn.1) fun _ _ => trivial⟩
  · rintro ⟨h,hi⟩
    obtain ⟨u,hu,_⟩ := Node.canonicalBytes_eq_ok.mp h
    refine (same ((Node.live_of_canonical hi ⟨u,hu⟩).imp (fun n hn => ?_) fun _ => id)).mp h
    obtain ⟨hi,m,hm,hr⟩ := hn
    rw [JsonNumber.value_of_isInteger hi] at hr
    have hlt : |m| < 2^53 := by
      unfold Node.maxSafeInteger at hm
      omega
    exact ⟨hi,abs_le.mp ((Binary64.eq_of_round_int hlt hr).symm ▸ hm)⟩

theorem python_iff_go (h : d.Live (fun n => n.IsInteger ∧ n ≠ .minusZero) Scalar) :
    Go.canonical pf.nfc (Go.reading.value d) = .ok b ↔ pf.portableCanonicalBytes (PyVal.reading.value d) = .ok b :=
  goCanonical_iff (goValue_value h)

/-- The same bytes from Python and from Go show that no `-0` stays. -/
theorem noMinusZero_of_same (hp : pf.portableCanonicalBytes (PyVal.reading.value d) = .ok b)
    (hg : Go.canonical pf.nfc (Go.reading.value d) = .ok b) : d.NoMinusZero := by
  have hd := safe_of_python hp
  have hplain : Go.canonical pf.nfc ((Go.readingWith fun n => Json.printInt n.int).value d) = .ok b :=
    (goCanonical_iff (goValue_reading (hd.imp (fun _ hn => ⟨hn.1,rfl⟩) fun _ => id))).mpr hp
  have hdec : Go.Decoded (Go.reading.value d) := Go.decoded_value Go.numberToken_text d
  have hdec' : Go.Decoded ((Go.readingWith fun n => Json.printInt n.int).value d) :=
    Go.decoded_value (fun n => JsonNumber.text_ofInt n.int ▸ Go.numberToken_text (.ofInt n.int)) d
  have hzero := ((Go.canonical_eq_iff hdec hdec' hg hplain).mp rfl).2
  refine Go.noMinusZero_of_not_meets (f := pf.nfc.run) (hd.imp (fun _ _ => trivial) fun _ => id) fun hm => hzero ?_
  exact ⟨_,_,Go.document_value (hd.imp (fun _ hn => Go.text_numeral hn.1) fun _ => id),
    Go.document_value (hd.imp (fun _ _ => rfl) fun _ => id),hm⟩

theorem scalarText_of_node (h : Node.canonicalBytes pf (Node.reading.value d) = .ok b) : d.ScalarText := by
  obtain ⟨u,hu,_⟩ := Node.canonicalBytes_eq_ok.mp h
  exact (Node.live_of_canonical d.live_true ⟨u,hu⟩).imp (fun _ _ => trivial) fun _ => id

/-- What Go and Node both accept with the same bytes is what Python accepts with them. -/
theorem python_of_go_node (hg : Go.canonical pf.nfc (Go.reading.value d) = .ok b)
    (hn : Node.canonicalBytes pf (Node.reading.value d) = .ok b) :
    pf.portableCanonicalBytes (PyVal.reading.value d) = .ok b :=
  python_iff_node.mpr ⟨hn,(Go.live_of_canonical (scalarText_of_node hn) ⟨b,hg⟩).imp (fun _ h => h.1) fun _ _ => trivial⟩

theorem python_of_go (hg : Go.canonical pf.nfc (Go.reading.value d) = .ok b) (hz : d.NoMinusZero) (hs : d.ScalarText) :
    pf.portableCanonicalBytes (PyVal.reading.value d) = .ok b :=
  (python_iff_go (((Go.live_of_canonical hs ⟨b,hg⟩).and hz).imp (fun _ hn => ⟨hn.1.1,hn.2⟩) fun _ hu => hu.1)).mp hg

theorem go_of_python (hp : pf.portableCanonicalBytes (PyVal.reading.value d) = .ok b) (hz : d.NoMinusZero) :
    Go.canonical pf.nfc (Go.reading.value d) = .ok b :=
  (python_iff_go (((safe_of_python hp).and hz).imp (fun _ hn => ⟨hn.1.1,hn.2⟩) fun _ hu => hu.1)).mpr hp

/-! The texts themselves -/

theorem loads_eq_some {pf : Platform} {p : PyVal} (h : JsonDoc.read s = some d) :
    pf.loads s = some p ↔ pf.PrintsLiterals d ∧ PyVal.reading.value d = p := by
  rw [Platform.loads,h]
  exact Option.ite_none_right_eq_some.trans (and_congr_right fun _ => by rw [Option.some.injEq])

theorem textBytes_python (h : JsonDoc.read s = some d) : pf.toPlatform.TextBytes s b ↔
    pf.portableCanonicalBytes (PyVal.reading.value d) = .ok b ∧ pf.toPlatform.PrintsLiterals d := by
  simp only [Platform.TextBytes,loads_eq_some h]
  constructor
  · rintro ⟨_,⟨hl,rfl⟩,hb⟩
    exact ⟨hb,hl⟩
  · rintro ⟨hb,hl⟩
    exact ⟨_,⟨hl,rfl⟩,hb⟩

theorem textBytes_node (h : JsonDoc.read s = some d) : Node.TextBytes pf s b ↔
    Node.canonicalBytes pf (Node.reading.value d) = .ok b := by
  simp only [Node.TextBytes,Node.parse,h,Option.map_some,Option.some.injEq,exists_eq_left']

theorem readFirst_of_read (h : JsonDoc.read s = some d) : ∃ r, JsonDoc.readFirst s = some (d,r) := by
  obtain ⟨⟨_,r⟩,hr,hd⟩ := Option.bind_eq_some_iff.mp h
  cases (Option.ite_none_right_eq_some.mp hd).2
  exact ⟨r,hr⟩

theorem textBytes_go (h : JsonDoc.read s = some d) : Go.TextBytes nfc s b ↔
    Go.canonical nfc (Go.reading.value d) = .ok b := by
  obtain ⟨r,hr⟩ := readFirst_of_read h
  simp only [Go.TextBytes,Go.decode,hr,Option.map_some,Option.some.injEq,exists_eq_left']

/-- When two of the three canonicalizers give a JSON text the same bytes -/
theorem texts_agree (h : JsonDoc.read s = some d) (b : Bytes) :
    (pf.toPlatform.TextBytes s b ↔ Node.TextBytes pf s b ∧ d.PlainIntegers ∧ pf.toPlatform.PrintsLiterals d) ∧
    (pf.toPlatform.TextBytes s b → (Go.TextBytes pf.nfc s b ↔ d.NoMinusZero)) ∧
    (Go.TextBytes pf.nfc s b →
      (pf.toPlatform.TextBytes s b ↔ d.NoMinusZero ∧ d.ScalarText ∧ pf.toPlatform.PrintsLiterals d)) ∧
    (Node.TextBytes pf s b → (Go.TextBytes pf.nfc s b ↔ d.PlainIntegers ∧ d.NoMinusZero)) ∧
    (Go.TextBytes pf.nfc s b → (Node.TextBytes pf s b ↔ d.NoMinusZero ∧ d.ScalarText)) := by
  simp only [textBytes_python h,textBytes_node h,textBytes_go h]
  have scalars (hp : pf.portableCanonicalBytes (PyVal.reading.value d) = .ok b) : d.ScalarText :=
    (safe_of_python hp).imp (fun _ _ => trivial) fun _ => id
  refine ⟨?_,fun hp => ⟨noMinusZero_of_same hp.1,go_of_python hp.1⟩,fun hg => ?_,fun hn => ?_,fun hg => ?_⟩
  · rw [python_iff_node,and_assoc]
  · constructor
    · exact fun hp => ⟨noMinusZero_of_same hp.1 hg,scalars hp.1,hp.2⟩
    · rintro ⟨hz,hs,hl⟩
      exact ⟨python_of_go hg hz hs,hl⟩
  · constructor
    · intro hg
      have hp := python_of_go_node hg hn
      exact ⟨(python_iff_node.mp hp).2,noMinusZero_of_same hp hg⟩
    · rintro ⟨hi,hz⟩
      exact go_of_python (python_iff_node.mpr ⟨hn,hi⟩) hz
  · constructor
    · exact fun hn => ⟨noMinusZero_of_same (python_of_go_node hg hn) hg,scalarText_of_node hn⟩
    · rintro ⟨hz,hs⟩
      exact (python_iff_node.mp (python_of_go hg hz hs)).1

/-- A shadowed fraction, and a character that is spelled as two escapes -/
def sampleText : List Char := "\x7b\"n\":1.5,\"n\":7,\"k\":\"\\ud83d\\ude00\"\x7d".toList

def sampleDoc : JsonDoc :=
  .obj [([110],.num ⟨false,1,[JsonDoc.digit '5'],none⟩),([110],.num ⟨false,7,[],none⟩),([107],.str [0xd83d,0xde00])]

theorem read_sampleText : JsonDoc.read sampleText = some sampleDoc := rfl

theorem sampleDoc_portable : ∃ b, samplePlatform.portableCanonicalBytes (PyVal.reading.value sampleDoc) = .ok b := by
  have hv : PyVal.reading.value sampleDoc = .dict [(.str (py "n"),.int 7),(.str (py "k"),.str (py "😀"))] := rfl
  have prints : ∀ n ∈ [(7 : Int)], samplePlatform.Prints n := by
    intro n hn
    cases List.mem_singleton.mp hn
    exact Platform.prints_of_lt (by decide)
  rw [hv]
  exact ⟨_,Platform.portableCanonicalBytes_eq_ok.mpr ⟨_,rfl,prints,rfl⟩⟩

theorem sampleDoc_literals : samplePlatform.PrintsLiterals sampleDoc := by
  intro n hn _
  simp only [sampleDoc,JsonDoc.numbers,JsonDoc.numbersMembers,List.nil_append,List.cons_append,List.append_nil,
    List.mem_cons,List.not_mem_nil,or_false] at hn
  rcases hn with rfl | rfl <;> exact Platform.prints_of_lt (by decide)

theorem sampleDoc_noMinusZero : sampleDoc.NoMinusZero := by
  refine .obj (fun _ _ => trivial) fun e he => ?_
  change e ∈ [([110],JsonDoc.num ⟨false,7,[],none⟩),([107],.str [0xd83d,0xde00])] at he
  simp only [List.mem_cons,List.not_mem_nil,or_false] at he
  rcases he with rfl | rfl
  · exact .num (by decide)
  · exact .str trivial

theorem texts_agree_sample : ∃ b, samplePlatform.TextBytes sampleText b ∧ Node.TextBytes Node.samplePlatform sampleText b ∧
    Go.TextBytes sampleNfc sampleText b := by
  obtain ⟨b,hb⟩ := sampleDoc_portable
  have hp : Node.samplePlatform.toPlatform.TextBytes sampleText b :=
    (textBytes_python read_sampleText).mpr ⟨hb,sampleDoc_literals⟩
  obtain ⟨hnode,hgo,_⟩ := @texts_agree sampleDoc sampleText Node.samplePlatform read_sampleText b
  exact ⟨b,hp,(hnode.mp hp).1,(hgo hp).mpr sampleDoc_noMinusZero⟩

end ExecutionFinality
