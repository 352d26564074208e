import G2way.Middleware.Context

/-!
# HTTP signatures

`g2-middleware/src/hmac.rs`: "parse an `Authorization: Signature …` header into
`SignatureParams`, rebuild the signing string the client signed". Base64 decoding
is a parameter, as is the HMAC itself, which the auth layer calls.
-/

namespace G2way.Middleware.Hmac

open G2way.Core G2way.Lib

/-- The algorithms a definition may accept. -/
inductive HmacAlgorithm where
  /-- HMAC over SHA-256. -/
  | hmacSha256
  /-- HMAC over SHA-384. -/
  | hmacSha384
  /-- HMAC over SHA-512. -/
  | hmacSha512
  deriving DecidableEq, Repr

/-- `HmacAlgorithm::as_str`. -/
def HmacAlgorithm.asStr : HmacAlgorithm → String
  | .hmacSha256 => "hmac-sha256"
  | .hmacSha384 => "hmac-sha384"
  | .hmacSha512 => "hmac-sha512"

/-- The parameters of one parsed `Signature` header. -/
structure SignatureParams where
  keyId : String
  algorithm : String
  /-- The signed names, lowercased. -/
  headers : List String
  signature : List UInt8
  deriving DecidableEq, Repr

/-- The parameters read so far. -/
structure Slots where
  keyId : Option String := none
  algorithm : Option String := none
  headers : Option String := none
  signature : Option String := none
  deriving DecidableEq, Repr

/-- A parameter into its slot: unknown ones are ignored, a duplicate is malformed. -/
def Slots.put (s : Slots) (name value : String) : Option Slots :=
  match name with
  | "keyId" => if s.keyId.isSome then none else some { s with keyId := some value }
  | "algorithm" => if s.algorithm.isSome then none else some { s with algorithm := some value }
  | "headers" => if s.headers.isSome then none else some { s with headers := some value }
  | "signature" => if s.signature.isSome then none else some { s with signature := some value }
  | _ => some s

/-- The loop of `parse_signature_header`. Each turn takes `="…"` off the text at least, so
as many turns as it has characters are enough. -/
def parseParams : ℕ → String → Slots → Option Slots
  | 0, rest, slots => if rest = "" then some slots else none
  | fuel + 1, rest, slots =>
    if rest = "" then some slots
    else do
      let (name, after) ← Text.splitOnce '=' rest
      let after ← Text.stripPrefix "\"" after
      let (value, rest) ← Text.splitOnce '"' after
      let rest := Text.trimStart rest
      let rest ← match Text.stripPrefix "," rest with
        | some r => some (Text.trimStart r)
        | none => if rest = "" then some rest else none
      let slots ← slots.put (Text.trim name) value
      parseParams fuel rest slots

/-- `u8::from_str_radix(_, 16)` of two characters, which takes a leading `+`. -/
def fromStrRadix16 (hi lo : UInt8) : Option UInt8 := do
  let l ← Text.hexDigit lo
  if hi = 43 then return UInt8.ofNat l
  let h ← Text.hexDigit hi
  return UInt8.ofNat (16 * h + l)

/-- The loop of `percent_decode`. -/
def percentDecodeBytes : List UInt8 → Option (List UInt8)
  | [] => some []
  | b :: rest =>
    if b = 37 then
      match rest with
      | hi :: lo :: rest => do
        let c ← fromStrRadix16 hi lo
        return c :: (← percentDecodeBytes rest)
      | _ => none
    else do return b :: (← percentDecodeBytes rest)

/-- `percent_decode`. -/
def percentDecode (value : String) : Option String := percentDecodeBytes (Text.utf8 value) >>= Text.fromUtf8

/-- `parse_signature_header`. -/
def parseSignatureHeader (base64Decode : String → Option (List UInt8)) (value : String) :
    Option SignatureParams := do
  let (scheme, rest) ← Text.splitAtChecked 10 (Text.trim value)
  guard (Text.eqIgnoreAsciiCase scheme "signature ")
  let rest := Text.trimStart rest
  let slots ← parseParams rest.length rest {}
  let keyId ← slots.keyId.filter (· ≠ "")
  let algorithm ← slots.algorithm.filter (· ≠ "")
  let headers ← match slots.headers with
    | none => some ["date"]
    | some list =>
      let names := (Text.splitWhitespace list).map Text.toAsciiLowercase
      if names = [] then none else some names
  let signature ← slots.signature
  let signature ← if '%' ∈ signature.toList then percentDecode signature else some signature
  let signature ← base64Decode signature
  return { keyId, algorithm, headers, signature }

/-- The `", "`-joined value of a header, each line's value trimmed; `none` when the request has
no such header, or a line of it that is not text. A name that is no header name names none. -/
def joinedValue (req : Request) (name : String) : Option String := do
  let values ← ((headerName name).elim [] req.headers.getAll).mapM fun v => v.toStr.map Text.trim
  if values = [] then none else some (", ".intercalate values)

/-- One line of the signing string; `none` when the name cannot be covered. -/
def signingLine (req : Request) (name : String) : Option String :=
  if name = "(request-target)" then
    some (Text.toAsciiLowercase req.method ++ " " ++ req.pathAndQuery)
  else (joinedValue req name).map fun value => name ++ ": " ++ value

/-- `build_signing_string`. -/
def buildSigningString (req : Request) (names : List String) : Option String :=
  (names.mapM (signingLine req)).map ("\n".intercalate ·)

end G2way.Middleware.Hmac
