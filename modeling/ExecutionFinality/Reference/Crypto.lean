import ExecutionFinality.Reference.Records

/-! `crypto.py`: the two authenticators. -/
namespace ExecutionFinality
open Utf8 (Bytes)

inductive Authenticator where
  | hmac (key : Bytes) (keyId : PyStr)
  | ed25519 (keyId : PyStr) (privateKey : Option Bytes) (publicKey : Bytes)

/-- `hmac.compare_digest` on two strings -/
def compareDigest (a b : PyStr) : Except Exn Bool := do
  failIf (¬ ∀ c ∈ a ++ b, c.val < 128)
    (.typeError (py "comparing strings with non-ASCII characters is not supported"))
  return a = b

def isSpace (c : CodePoint) : Bool := c.val = 32 ∨ 9 ≤ c.val ∧ c.val ≤ 13

def hexDigit? (c : CodePoint) : Option Nat :=
  if 48 ≤ c.val ∧ c.val ≤ 57 then some (c.val - 48)
  else if 97 ≤ c.val ∧ c.val ≤ 102 then some (c.val - 87)
  else if 65 ≤ c.val ∧ c.val ≤ 70 then some (c.val - 55)
  else none

/-- `bytes.fromhex`: ASCII white space may stand between the byte pairs. -/
def fromHex : PyStr → Option Bytes
  | [] => some []
  | [c] => if isSpace c then some [] else none
  | c :: d :: s =>
    if isSpace c then fromHex (d :: s)
    else do return UInt8.ofNat (16 * (← hexDigit? c) + (← hexDigit? d)) :: (← fromHex s)

namespace Authenticator

def keyId : Authenticator → PyStr
  | .hmac _ keyId | .ed25519 keyId _ _ => keyId

/-- `Ed25519Authenticator(key_id=..., private_key=...)` -/
def signer (pf : Platform) (keyId : PyStr) (privateKey : Bytes) : Authenticator :=
  .ed25519 keyId (some privateKey) (pf.ed25519Public privateKey)

/-- `Ed25519Authenticator.verifier()`; an HMAC authenticator has no such method. -/
def verifier : Authenticator → Option Authenticator
  | .hmac _ _ => none
  | .ed25519 keyId _ publicKey => some (.ed25519 keyId none publicKey)

def sign (pf : Platform) (a : Authenticator) (value : PyVal) : Except Exn PyStr :=
  match a with
  | .hmac key _ => do return PyStr.ofChars (hexChars (pf.hmacSha256 key (← pf.canonicalBytes value)))
  | .ed25519 _ none _ => .error (.runtimeError (py "verifier-only Ed25519Authenticator cannot sign"))
  | .ed25519 _ (some key) _ => do
    return PyStr.ofChars (hexChars (pf.ed25519Sign key (← pf.canonicalBytes value)))

/-- The Ed25519 branch turns every exception into a refusal, the HMAC branch none. -/
def verify (pf : Platform) (a : Authenticator) (value : PyVal) (signature keyId : PyStr) : Except Exn Bool :=
  if keyId ≠ a.keyId then .ok false
  else match a with
  | .hmac _ _ => do compareDigest (← a.sign pf value) signature
  | .ed25519 _ _ publicKey =>
    match fromHex signature,pf.canonicalBytes value with
    | some raw,.ok data => .ok (pf.ed25519Verify publicKey raw data)
    | _,_ => .ok false

end Authenticator

/-- What a signature is checked under. -/
inductive VerKey where
  | hmac (key : Bytes)
  | ed25519 (publicKey : Bytes)

namespace Authenticator
variable {pf : Platform} {a : Authenticator} {value : PyVal} {signature kid : PyStr}

def verKey : Authenticator → VerKey
  | .hmac key _ => .hmac key
  | .ed25519 _ _ publicKey => .ed25519 publicKey

/-- The key under which the signatures of this authenticator are made. -/
def signKey (pf : Platform) : Authenticator → Option VerKey
  | .hmac key _ => some (.hmac key)
  | .ed25519 _ privateKey _ => privateKey.map fun key => .ed25519 (pf.ed25519Public key)

/-- The authenticators that the repository makes: a signing key goes with its own
public key. -/
def Paired (pf : Platform) (a : Authenticator) : Prop := ∀ k, a.signKey pf = some k → k = a.verKey

/-- A verifier-only authenticator cannot sign. -/
def CanSign (a : Authenticator) : Prop := ∀ keyId publicKey, a ≠ .ed25519 keyId none publicKey

theorem signer_paired (keyId : PyStr) (key : Bytes) : (signer pf keyId key).Paired pf := by
  rintro k ⟨⟩
  rfl

theorem verifier_paired {b : Authenticator} (h : a.verifier = some b) : b.Paired pf ∧ ¬ b.CanSign := by
  cases a with
  | hmac => cases h
  | ed25519 keyId privateKey publicKey =>
    cases h
    exact ⟨fun k hk => (nomatch hk),fun h => h _ _ rfl⟩

theorem exists_sign : (∃ s, a.sign pf value = .ok s) ↔ a.CanSign ∧ pf.Accepts value := by
  cases a with
  | hmac key keyId =>
    simp only [sign,CheckChains.bind_eq_ok,CheckChains.pure_eq_ok,Platform.Accepts]
    constructor
    · rintro ⟨_,b,hb,_⟩
      exact ⟨by rintro _ _ ⟨⟩,b,hb⟩
    · rintro ⟨_,b,hb⟩
      exact ⟨_,b,hb,rfl⟩
  | ed25519 keyId privateKey publicKey =>
    cases privateKey with
    | none =>
      simp only [sign]
      constructor
      · rintro ⟨_,⟨⟩⟩
      · exact fun h => absurd rfl (h.1 keyId publicKey)
    | some key =>
      simp only [sign,CheckChains.bind_eq_ok,CheckChains.pure_eq_ok,Platform.Accepts]
      constructor
      · rintro ⟨_,b,hb,_⟩
        exact ⟨by rintro _ _ ⟨⟩,b,hb⟩
      · rintro ⟨_,b,hb⟩
        exact ⟨_,b,hb,rfl⟩

theorem sign_eq_ok (h : a.sign pf value = .ok signature) :
    ∃ k b, a.signKey pf = some k ∧ pf.canonicalBytes value = .ok b := by
  obtain ⟨hs,b,hb⟩ := exists_sign.mp ⟨_,h⟩
  cases a with
  | hmac key keyId => exact ⟨_,b,rfl,hb⟩
  | ed25519 keyId privateKey publicKey =>
    cases privateKey with
    | none => exact absurd rfl (hs keyId publicKey)
    | some key => exact ⟨_,b,rfl,hb⟩

theorem verify_eq_true (h : a.verify pf value signature kid = .ok true) :
    kid = a.keyId ∧ pf.Accepts value := by
  unfold verify at h
  split at h
  · cases h
  · rename_i hk
    refine ⟨not_not.mp hk,?_⟩
    cases a with
    | hmac key keyId =>
      obtain ⟨s,hs,_⟩ := CheckChains.bind_eq_ok.mp h
      exact (exists_sign.mp ⟨s,hs⟩).2
    | ed25519 keyId privateKey publicKey =>
      dsimp only at h
      split at h
      · rename_i hb
        exact ⟨_,hb⟩
      · cases h

end Authenticator

theorem compareDigest_self (b : Bytes) :
    compareDigest (PyStr.ofChars (hexChars b)) (PyStr.ofChars (hexChars b)) = .ok true := by
  simp only [compareDigest,CheckChains.bind_eq_ok,CheckChains.failIf_eq_ok,not_not]
  refine ⟨(),fun c hc => ?_,by simp⟩
  rw [List.mem_append,or_self] at hc
  obtain ⟨d,hd,rfl⟩ := List.mem_map.mp hc
  exact hexChars_ascii b d hd

theorem fromHex_hexChars (b : Bytes) : fromHex (PyStr.ofChars (hexChars b)) = some b := by
  induction b with
  | nil => rfl
  | cons x b ih =>
    have digit : ∀ d < 16, isSpace (PyStr.ofChar (Nat.digitChar d)) = false ∧
        hexDigit? (PyStr.ofChar (Nat.digitChar d)) = some d := by decide
    have hx := x.toNat_lt
    have hhi := digit (x.toNat / 16) (by omega)
    have hlo := digit (x.toNat % 16) (by omega)
    have he : 16 * (x.toNat / 16) + x.toNat % 16 = x.toNat := by omega
    change fromHex (_ :: _ :: PyStr.ofChars (hexChars b)) = _
    simp only [fromHex,hhi,hlo,ih,Bool.false_eq_true,if_false,Option.bind_eq_bind,Option.bind_some,he,
      UInt8.ofNat_toNat]
    rfl

/-- What `sign` returns is a string of hexadecimal digits. -/
theorem Authenticator.isHex_of_sign {pf : Platform} {a : Authenticator} {value : PyVal} {signature : PyStr}
    (h : a.sign pf value = .ok signature) : Platform.IsHex signature := by
  cases a with
  | hmac key keyId =>
    simp only [sign,CheckChains.bind_eq_ok,CheckChains.pure_eq_ok] at h
    obtain ⟨m,_,rfl⟩ := h
    exact ⟨_,rfl⟩
  | ed25519 keyId privateKey publicKey =>
    cases privateKey with
    | none => cases h
    | some key =>
      simp only [sign,CheckChains.bind_eq_ok,CheckChains.pure_eq_ok] at h
      obtain ⟨m,_,rfl⟩ := h
      exact ⟨_,rfl⟩

/-- What a paired authenticator signs, it accepts. -/
theorem Authenticator.verify_sign {pf : Platform} {a : Authenticator} {value : PyVal} {signature : PyStr}
    (hp : a.Paired pf) (h : a.sign pf value = .ok signature) :
    a.verify pf value signature a.keyId = .ok true := by
  unfold Authenticator.verify
  rw [if_neg (not_not.mpr rfl)]
  cases a with
  | hmac key keyId =>
    dsimp only
    rw [h,CheckChains.ok_bind]
    simp only [sign,CheckChains.bind_eq_ok,CheckChains.pure_eq_ok] at h
    obtain ⟨m,_,rfl⟩ := h
    exact compareDigest_self _
  | ed25519 keyId privateKey publicKey =>
    cases privateKey with
    | none => cases h
    | some key =>
      cases hp _ rfl
      simp only [sign,CheckChains.bind_eq_ok,CheckChains.pure_eq_ok] at h
      obtain ⟨m,hm,rfl⟩ := h
      simp only [fromHex_hexChars,hm,pf.ed25519Verify_sign]

namespace Authenticator

/-- A signature is over the canonical bytes. -/
theorem verify_congr {pf : Platform} {a : Authenticator} {v w : PyVal} {signature kid : PyStr}
    (h : pf.canonicalBytes v = pf.canonicalBytes w) : a.verify pf v signature kid = a.verify pf w signature kid := by
  have hs : a.sign pf v = a.sign pf w := by
    cases a <;> simp only [sign,h]
  cases a <;> simp only [verify,hs,h]

/-- `b` accepts every signature of `a`. -/
def Trusts (pf : Platform) (b a : Authenticator) : Prop :=
  ∀ value signature, a.sign pf value = .ok signature → b.verify pf value signature a.keyId = .ok true

theorem Paired.trusts {pf : Platform} {a : Authenticator} (h : a.Paired pf) : Trusts pf a a :=
  fun _ _ => verify_sign h

end Authenticator
end ExecutionFinality
