import ExecutionFinality.Interop.NodeCanonical

/-! `canonical.mjs` on every JavaScript value, beyond what `JSON.parse` returns. -/
namespace ExecutionFinality
open KeyedEntries
open Node (Err normalizeString isSafeInteger ownOrder utf8 stringify encodeMembers KeyText)

/-- A JavaScript value. The empty slots of an array are its holes; `other` is an object of
any further class, with its own enumerable properties in the order of `Object.entries`. -/
inductive JsAny where
  | undefined
  | null
  | bool (b : Bool)
  | number (x : Binary64)
  | negativeZero
  | bigint (n : Int)
  | string (s : JsStr)
  | symbol
  | function
  | array (xs : List (Option JsAny))
  | object (es : List (JsStr × JsAny))
  | other (className : JsStr) (es : List (JsStr × JsAny))

/-- Induction through the elements of an array and the properties of an object. -/
theorem JsVal.recOn_members {P : JsVal → Prop} (undefined : P .undefined) (null : P .null) (bool : ∀ b, P (.bool b))
    (number : ∀ x, P (.number x)) (string : ∀ s, P (.string s))
    (array : ∀ xs : List JsVal, (∀ x ∈ xs, P x) → P (.array xs))
    (object : ∀ es : List (JsStr × JsVal), (∀ e ∈ es, P e.2) → P (.object es)) : ∀ v, P v :=
  JsVal.rec (motive_1 := P) (motive_2 := fun xs => ∀ x ∈ xs, P x) (motive_3 := fun es => ∀ e ∈ es, P e.2)
    (motive_4 := fun e => P e.2) undefined null bool number string array object
    (by simp) (by simp_all) (by simp) (by simp_all) (fun _ _ h => h)

namespace JsAny

/-- Induction through the slots of an array and the properties of an object. -/
theorem recOn_members {P : JsAny → Prop} (undefined : P .undefined) (null : P .null) (bool : ∀ b, P (.bool b))
    (number : ∀ x, P (.number x)) (negativeZero : P .negativeZero) (bigint : ∀ n, P (.bigint n))
    (string : ∀ s, P (.string s)) (symbol : P .symbol) (function : P .function)
    (array : ∀ xs : List (Option JsAny), (∀ x, some x ∈ xs → P x) → P (.array xs))
    (object : ∀ es : List (JsStr × JsAny), (∀ e ∈ es, P e.2) → P (.object es))
    (other : ∀ (className : JsStr) (es : List (JsStr × JsAny)), (∀ e ∈ es, P e.2) → P (.other className es)) : ∀ v, P v :=
  JsAny.rec (motive_1 := P) (motive_2 := fun xs => ∀ x, some x ∈ xs → P x) (motive_3 := fun es => ∀ e ∈ es, P e.2)
    (motive_4 := fun o => ∀ x, o = some x → P x) (motive_5 := fun e => P e.2)
    undefined null bool number negativeZero bigint string symbol function array object other
    (by simp) (fun _ _ ho hxs x hx => (List.mem_cons.mp hx).elim (fun h => ho x h.symm) (hxs x))
    (by simp) (by simp_all) (by simp) (fun _ hv _ hx => Option.some.inj hx ▸ hv) (fun _ _ h => h)

def typeof : JsAny → JsStr
  | .undefined => js "undefined"
  | .null | .array _ | .object _ | .other _ _ => js "object"
  | .bool _ => js "boolean"
  | .number _ | .negativeZero => js "number"
  | .bigint _ => js "bigint"
  | .string _ => js "string"
  | .symbol => js "symbol"
  | .function => js "function"

local instance : LawfulBEq JsStr := inferInstance

mutual
def normalizeCanonical (nfc : Nfc) : JsAny → Except Err JsAny
  | .null => .ok .null
  | .bool b => .ok (.bool b)
  | .number x => do
    failIf (¬ isSafeInteger x) (.error (js "integer outside portable safe range or non-integer"))
    return .number x
  | .negativeZero => .ok .negativeZero
  | .string s => do return .string (← normalizeString nfc s)
  | .array xs => do return .array (← normalizeElements nfc xs)
  | .object es | .other _ es => do
    let entries ← collect (normalizeString nfc)
      (fun key => .error (js "key collision after Unicode normalization: " ++ key)) id
      (normalizeValues nfc es) []
    return .object (ownOrder (sortOn utf8 entries))
  | v => .error (.error (js "unsupported type " ++ v.typeof))

/-- `v.map(normalizeCanonical)`, which visits no hole and keeps it -/
def normalizeElements (nfc : Nfc) : List (Option JsAny) → Except Err (List (Option JsAny))
  | [] => .ok []
  | none :: xs => do return none :: (← normalizeElements nfc xs)
  | some x :: xs => do return some (← normalizeCanonical nfc x) :: (← normalizeElements nfc xs)

/-- What each property value normalizes to, once its turn comes -/
def normalizeValues (nfc : Nfc) : List (JsStr × JsAny) → List (JsStr × Except Err JsAny)
  | [] => []
  | (key,val) :: es => (key,normalizeCanonical nfc val) :: normalizeValues nfc es
end

/-- `join(',')`, for which a hole is empty text -/
def join (ss : List (Option JsStr)) : JsStr := (js ",").intercalate (ss.map fun s => s.getD [])

mutual
/-- `Object.keys` is empty on a bigint, a symbol or a function, and throws on `undefined`. -/
def encodeCanonical (pf : Node.Platform) : JsAny → Except Err JsStr
  | .null => .ok (js "null")
  | .bool true => .ok (js "true")
  | .bool false => .ok (js "false")
  | .number x => .ok (pf.numberToString x)
  | .negativeZero => .ok (js "0")
  | .string s => .ok (stringify s)
  | .array xs => do return js "[" ++ join (← encodeElements pf xs) ++ js "]"
  | .object es | .other _ es => do
    return js "\x7b" ++ (js ",").intercalate (← encodeMembers (sortOn utf8 (encodeValues pf es))) ++ js "\x7d"
  | .bigint _ | .symbol | .function => .ok (js "\x7b\x7d")
  | .undefined => .error .typeError

/-- `x.map(encodeCanonical)` -/
def encodeElements (pf : Node.Platform) : List (Option JsAny) → Except Err (List (Option JsStr))
  | [] => .ok []
  | none :: xs => do return none :: (← encodeElements pf xs)
  | some x :: xs => do return some (← encodeCanonical pf x) :: (← encodeElements pf xs)

def encodeValues (pf : Node.Platform) : List (JsStr × JsAny) → List (JsStr × Except Err JsStr)
  | [] => []
  | (k,x) :: es => (k,encodeCanonical pf x) :: encodeValues pf es
end

def canonical (pf : Node.Platform) (v : JsAny) : Except Err JsStr := do
  encodeCanonical pf (← normalizeCanonical pf.nfc v)

variable {nfc : Nfc} {pf : Node.Platform}

theorem normalizeElements_eq (xs : List (Option JsAny)) :
    normalizeElements nfc xs = xs.mapM (Option.mapM (normalizeCanonical nfc)) := by
  induction xs with
  | nil => rfl
  | cons x xs ih =>
    rw [List.mapM_cons,← ih]
    cases x with
    | none => rfl
    | some x => simp only [normalizeElements,Option.mapM_some,map_eq_pure_bind,bind_assoc,pure_bind]

theorem encodeElements_eq (xs : List (Option JsAny)) :
    encodeElements pf xs = xs.mapM (Option.mapM (encodeCanonical pf)) := by
  induction xs with
  | nil => rfl
  | cons x xs ih =>
    rw [List.mapM_cons,← ih]
    cases x with
    | none => rfl
    | some x => simp only [encodeElements,Option.mapM_some,map_eq_pure_bind,bind_assoc,pure_bind]

theorem normalizeValues_eq (es : List (JsStr × JsAny)) :
    normalizeValues nfc es = es.map fun e => (e.1,normalizeCanonical nfc e.2) := by
  induction es with
  | nil => rfl
  | cons e es ih => rw [normalizeValues,ih,List.map_cons]

theorem encodeValues_eq (es : List (JsStr × JsAny)) :
    encodeValues pf es = es.map fun e => (e.1,encodeCanonical pf e.2) := by
  induction es with
  | nil => rfl
  | cons e es ih => rw [encodeValues,ih,List.map_cons]

theorem canonical_eq_ok {v : JsAny} {s : JsStr} : canonical pf v = .ok s ↔
    ∃ w, normalizeCanonical pf.nfc v = .ok w ∧ encodeCanonical pf w = .ok s :=
  CheckChains.bind_eq_ok

/-- The text that a slot of an array contributes -/
def SlotText (pf : Node.Platform) : Option JsAny → JsStr → Prop
  | none, s => s = []
  | some x, s => canonical pf x = .ok s

theorem slotText_iff {x : Option JsAny} {s : JsStr} : SlotText pf x s ↔ ∃ w : Option JsAny,
    x.mapM (normalizeCanonical pf.nfc) = .ok w ∧ ∃ t : Option JsStr,
      w.mapM (encodeCanonical pf) = .ok t ∧ t.getD [] = s := by
  have slot {α β : Type} {f : α → Except Err β} {a : α} {o : Option β} :
      (some a).mapM f = .ok o ↔ ∃ b, f a = .ok b ∧ some b = o := by
    rw [Option.mapM_some,map_eq_pure_bind,CheckChains.bind_eq_ok]
    simp only [CheckChains.pure_eq_ok]
  have hole {α β : Type} {f : α → Except Err β} {o : Option β} : (none : Option α).mapM f = .ok o ↔ none = o :=
    CheckChains.pure_eq_ok
  cases x with
  | none =>
    simp only [SlotText,hole,exists_eq_left']
    exact eq_comm
  | some x =>
    simp only [SlotText,canonical_eq_ok,slot]
    constructor
    · rintro ⟨w,hw,hs⟩
      exact ⟨_,⟨w,hw,rfl⟩,_,slot.mpr ⟨s,hs,rfl⟩,rfl⟩
    · rintro ⟨_,⟨w,hw,rfl⟩,_,ho,rfl⟩
      obtain ⟨t,ht,rfl⟩ := slot.mp ho
      exact ⟨w,hw,ht⟩

theorem canonical_array {xs : List (Option JsAny)} {s : JsStr} : canonical pf (.array xs) = .ok s ↔
    ∃ ss, List.Forall₂ (SlotText pf) xs ss ∧ s = js "[" ++ (js ",").intercalate ss ++ js "]" := by
  have joined (ts : List (Option JsStr)) (ss : List JsStr) :
      List.Forall₂ (fun t s => t.getD [] = s) ts ss ↔ ts.map (fun t => t.getD []) = ss :=
    (map_eq_iff_forall₂ (k := id)).symm.trans (by rw [List.map_id])
  have slots (ss : List JsStr) : List.Forall₂ (SlotText pf) xs ss ↔ ∃ ws,
      List.Forall₂ (fun x w => x.mapM (normalizeCanonical pf.nfc) = .ok w) xs ws ∧ ∃ ts,
        List.Forall₂ (fun w t => w.mapM (encodeCanonical pf) = .ok t) ws ts ∧ ts.map (fun t => t.getD []) = ss := by
    rw [forall₂_iff_of_mem fun _ _ _ => slotText_iff,forall₂_comp]
    simp only [forall₂_comp,joined]
  have normalized (w : JsAny) : normalizeCanonical pf.nfc (.array xs) = .ok w ↔ ∃ ws,
      List.Forall₂ (fun x w => x.mapM (normalizeCanonical pf.nfc) = .ok w) xs ws ∧ .array ws = w := by
    simp only [normalizeCanonical,CheckChains.bind_eq_ok,CheckChains.pure_eq_ok,normalizeElements_eq,
      CheckChains.mapM_eq_ok]
  have encoded (ws : List (Option JsAny)) : encodeCanonical pf (.array ws) = .ok s ↔ ∃ ts,
      List.Forall₂ (fun w t => w.mapM (encodeCanonical pf) = .ok t) ws ts ∧ js "[" ++ join ts ++ js "]" = s := by
    simp only [encodeCanonical,CheckChains.bind_eq_ok,CheckChains.pure_eq_ok,encodeElements_eq,
      CheckChains.mapM_eq_ok]
  simp only [canonical_eq_ok,slots]
  constructor
  · rintro ⟨w,hw,hs⟩
    obtain ⟨ws,hws,rfl⟩ := (normalized w).mp hw
    obtain ⟨ts,hts,rfl⟩ := (encoded ws).mp hs
    exact ⟨_,⟨ws,hws,ts,hts,rfl⟩,rfl⟩
  · rintro ⟨_,⟨ws,hws,ts,hts,rfl⟩,rfl⟩
    exact ⟨_,(normalized _).mpr ⟨ws,hws,rfl⟩,(encoded ws).mpr ⟨ts,hts,rfl⟩⟩

/-- An object is its members sorted by normalized key, and no two keys may normalize to one. -/
theorem canonical_object {es : List (JsStr × JsAny)} {s : JsStr} : canonical pf (.object es) = .ok s ↔
    ∃ ms : List (List Char × JsStr),
      List.Forall₂ (fun e m => KeyText pf.nfc e.1 m.1 ∧ canonical pf e.2 = .ok m.2) es ms ∧ (keys ms).Nodup ∧
      s = js "\x7b" ++ (js ",").intercalate ((sortOn id ms).map fun m =>
        Utf16.encode (Json.quote m.1) ++ js ":" ++ m.2) ++ js "\x7d" := by
  have normalized (w : JsAny) : normalizeCanonical pf.nfc (.object es) = .ok w ↔
      ∃ ns, Node.NormalProperties pf.nfc (normalizeCanonical pf.nfc) es ns ∧ .object (ownOrder (sortOn utf8 ns)) = w := by
    simp only [normalizeCanonical,CheckChains.bind_eq_ok,CheckChains.pure_eq_ok,normalizeValues_eq,Node.collect_eq_ok]
  have encoded (ns : List (JsStr × JsAny)) : encodeCanonical pf (.object ns) = .ok s ↔
      ∃ ss, encodeMembers (sortOn utf8 (ns.map fun n => (n.1,encodeCanonical pf n.2))) = .ok ss ∧
        js "\x7b" ++ (js ",").intercalate ss ++ js "\x7d" = s := by
    simp only [encodeCanonical,CheckChains.bind_eq_ok,CheckChains.pure_eq_ok,encodeValues_eq]
  simp only [canonical_eq_ok]
  rw [← Node.encodeMembers_normal]
  constructor
  · rintro ⟨w,hw,hs⟩
    obtain ⟨ns,hns,rfl⟩ := (normalized w).mp hw
    obtain ⟨ss,hss,rfl⟩ := (encoded _).mp hs
    exact ⟨ns,hns,ss,hss,rfl⟩
  · rintro ⟨ns,hns,ss,hss,rfl⟩
    exact ⟨_,(normalized _).mpr ⟨ns,hns,rfl⟩,(encoded _).mpr ⟨ss,hss,rfl⟩⟩

theorem canonical_other (className : JsStr) (es : List (JsStr × JsAny)) :
    canonical pf (.other className es) = canonical pf (.object es) := rfl

mutual
/-- A value that `JSON.parse` returns, among all values -/
def ofParsed : JsVal → JsAny
  | .undefined => .undefined
  | .null => .null
  | .bool b => .bool b
  | .number x => .number x
  | .string s => .string s
  | .array xs => .array (ofElements xs)
  | .object es => .object (ofProperties es)

def ofElements : List JsVal → List (Option JsAny)
  | [] => []
  | x :: xs => some (ofParsed x) :: ofElements xs

def ofProperties : List (JsStr × JsVal) → List (JsStr × JsAny)
  | [] => []
  | (k,v) :: es => (k,ofParsed v) :: ofProperties es
end

theorem ofElements_eq (xs : List JsVal) : ofElements xs = xs.map fun x => some (ofParsed x) := by
  induction xs with
  | nil => rfl
  | cons x xs ih => rw [ofElements,ih,List.map_cons]

theorem ofProperties_eq (es : List (JsStr × JsVal)) : ofProperties es = es.map fun e => (e.1,ofParsed e.2) := by
  induction es with
  | nil => rfl
  | cons e es ih => rw [ofProperties,ih,List.map_cons]

/-- On parsed values the two models of the canonicalizer agree. -/
theorem canonical_ofParsed (v : JsVal) : ∀ s, canonical pf (ofParsed v) = .ok s ↔ Node.canonical pf v = .ok s := by
  induction v using JsVal.recOn_members with
  | number x =>
    intro s
    rw [ofParsed,canonical,Node.canonical,normalizeCanonical,Node.normalizeCanonical]
    cases isSafeInteger x <;> rfl
  | string u =>
    intro s
    rw [ofParsed,canonical,Node.canonical,normalizeCanonical,Node.normalizeCanonical]
    cases normalizeString pf.nfc u <;> rfl
  | array xs ih =>
    intro s
    rw [ofParsed,ofElements_eq,canonical_array,Node.canonical_array]
    simp only [List.forall₂_map_left_iff,SlotText,forall₂_iff_of_mem ih]
  | object es ih =>
    intro s
    rw [ofParsed,ofProperties_eq,canonical_object,Node.canonical_object]
    have member (e : JsStr × JsVal) (he : e ∈ es) (m : List Char × JsStr) := and_congr_right
      fun _ : KeyText pf.nfc e.1 m.1 => ih e he m.2
    simp only [List.forall₂_map_left_iff,forall₂_iff_of_mem member]
  | bool b => cases b <;> exact fun s => Iff.rfl
  | _ => exact fun s => Iff.rfl

end JsAny
end ExecutionFinality
