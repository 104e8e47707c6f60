import PolyORB.Giop.CodeSets
import PolyORB.Requests.Arguments

/-!
# Arguments of a GIOP 1.2 request

`Process_Request` unmarshalls the arguments of a request at once when the object adapter knows their
types, and leaves it to the servant otherwise.  The transmission code sets of the session are those of
the first request, and are set in between.
-/

namespace PolyORB

open Buffer
open Program (onlyIf raiseIf evaluate stateAfter)

/-! ## Converters -/

/-- `GIOP_1_1_CDR_Representation` -/
structure Representation where
  cConverter : Option CharConverter
  wConverter : Option WideConverter
  deriving DecidableEq

structure CodeSetInfo (C : Type) where
  codeSet : Nat
  native : C
  fallback : C
  conversions : List (Nat × C)

def getConverter {C : Type} (info : List (CodeSetInfo C)) (fallbackCodeSet nativeCodeSet
    targetCodeSet : Nat) : Option C :=
  match info.find? fun i => i.codeSet == nativeCodeSet with
  | none => none
  | some i =>
    if targetCodeSet = nativeCodeSet then some i.native
    else if targetCodeSet = fallbackCodeSet then some i.fallback
    else (i.conversions.find? fun c => c.1 == targetCodeSet).map Prod.snd

def latin1CodeSet : Nat := 0x00010001
def ucs2Level1CodeSet : Nat := 0x00010100
def ucs2Level2CodeSet : Nat := 0x00010101
def ucs2Level3CodeSet : Nat := 0x00010102
def utf16CodeSet : Nat := 0x00010109
def utf8CodeSet : Nat := 0x05010001

/-- The code sets that are registered, and those that are native. -/
structure Registry where
  info : List (CodeSetInfo CharConverter)
  wideInfo : List (CodeSetInfo WideCodeSet)
  nativeCharCodeSet : Nat
  nativeWcharCodeSet : Nat

/-- As `Initialize` registers them. -/
def Registry.ada95 : Registry :=
  { info := [⟨latin1CodeSet, .iso88591Native, .iso88591Utf8, []⟩]
    wideInfo := [⟨ucs2Level1CodeSet, .ucs2Native, .ucs2Utf16,
      [(ucs2Level2CodeSet, .ucs2Native), (ucs2Level3CodeSet, .ucs2Native)]⟩]
    nativeCharCodeSet := latin1CodeSet
    nativeWcharCodeSet := ucs2Level1CodeSet }

/-- `QoS_GIOP_Code_Sets_Parameter` -/
structure CodeSets where
  charData : Nat
  wcharData : Nat
  deriving DecidableEq

/-- `To_QoS_GIOP_Code_Sets_Parameter` -/
def toCodeSets (host : Endianness) (contextData : List UInt8) : Except Exn CodeSets := do
  let buffer ← decapsulate contextData
  match (do
    let charData ← unmarshallElementary host 4
    let wcharData ← unmarshallElementary host 4
    return (⟨charData, wcharData⟩ : CodeSets)) buffer with
  | .ok cs _ => .ok cs
  | .error e _ => .error e

/-- The converters that `Set_Converters` of GIOP 1.2 is given, once it has set their mode. -/
def Registry.converters (reg : Registry) (cs : CodeSets) : Option Representation :=
  (getConverter reg.wideInfo utf16CodeSet reg.nativeWcharCodeSet cs.wcharData).map fun w =>
    ⟨getConverter reg.info utf8CodeSet reg.nativeCharCodeSet cs.charData, some ⟨w, true⟩⟩

/-- Without a converter for `wchar`, `W.all` raises. -/
def setConverters (reg : Registry) (cs : CodeSets) : Except Exn Representation :=
  match reg.converters cs with
  | some r => .ok r
  | none => .error .constraintError

/-! ## Text -/

def marshalError5 : SysError := ⟨.marshalE, 5, .completedNo⟩

section Text

variable (host : Endianness) (assertions : Bool)

/-- Without a converter characters are ISO 8859-1, as the converter for that code set writes them. -/
def Representation.marshallChar (r : Representation) (c : UInt8) : CdrProg Unit :=
  match r.cConverter with
  | some k => (CodedDatum.char k c).marshall host assertions
  | none => (CodedDatum.char .iso88591Native c).marshall host assertions

def Representation.marshallString (r : Representation) (s : List UInt8) : CdrProg Unit :=
  match r.cConverter with
  | some k => (CodedDatum.string k s).marshall host assertions
  | none => (CodedDatum.string .iso88591Native s).marshall host assertions

def Representation.marshallWchar (r : Representation) (c : UInt16) : CdrProg Unit :=
  match r.wConverter with
  | some k => (CodedDatum.wchar k c).marshall host assertions
  | none => throwSysError marshalError5

def Representation.marshallWideString (r : Representation) (s : List UInt16) : CdrProg Unit :=
  match r.wConverter with
  | some k => (CodedDatum.wideString k s).marshall host assertions
  | none => throwSysError marshalError5

def Representation.unmarshallChar (r : Representation) : CdrProg Nat :=
  match r.cConverter with
  | some .iso88591Native | none => onBuffer (unmarshallElementary host 1)
  | some .iso88591Utf8 => do return (← unmarshallUtf8Char host).toNat

def Representation.unmarshallString (r : Representation) : CdrProg (List UInt8) :=
  match r.cConverter with
  | some .iso88591Native | none => onBuffer (unmarshallLatin1String host)
  | some .iso88591Utf8 => onBuffer (unmarshallUtf8String host)

def Representation.unmarshallWchar (r : Representation) : CdrProg Nat :=
  match r.wConverter with
  | some ⟨.ucs2Native, m⟩ => do return (← onBuffer (unmarshallUcs2Wchar host m)).toNat
  | some ⟨.ucs2Utf16, m⟩ => do return (← unmarshallUtf16Wchar host m).toNat
  | none => do
    throwSysError marshalError5
    return 0

def Representation.unmarshallWideString (r : Representation) : CdrProg (List Nat) :=
  match r.wConverter with
  | some ⟨.ucs2Native, m⟩ => do
    return (← onBuffer (unmarshallUcs2WideString host m)).map UInt16.toNat
  | some ⟨.ucs2Utf16, m⟩ => do return (← unmarshallUtf16WideString host m).map UInt16.toNat
  | none => do
    throwSysError marshalError5
    return []

/-- The operations of a representation, those on references being given. -/
def Representation.primitives (r : Representation) (marshallReference : List UInt8 → CdrProg Unit)
    (unmarshallReference : CdrProg (List UInt8)) : Primitives where
  marshallChar v := r.marshallChar host assertions (UInt8.ofNat v)
  unmarshallChar := r.unmarshallChar host
  marshallWchar v := r.marshallWchar host assertions (UInt16.ofNat v)
  unmarshallWchar := r.unmarshallWchar host
  marshallString := r.marshallString host assertions
  unmarshallString := r.unmarshallString host
  marshallWideString s := r.marshallWideString host assertions (s.map UInt16.ofNat)
  unmarshallWideString := r.unmarshallWideString host
  marshallReference := marshallReference
  unmarshallReference := unmarshallReference

end Text

/-! ## Unmarshalling arguments -/

/-- An argument of a list, whose Any has the type `tc`. -/
structure Argument where
  tc : TcRef
  value : Content
  argModes : Flags

/-- What is the same for all requests of a server. -/
structure ServerConfig extends Config where
  assertions : Bool
  marshallReference : List UInt8 → CdrProg Unit
  unmarshallReference : CdrProg (List UInt8)
  unmarshallTypeCode : Primitives → DecodeProg TcRef
  registry : Registry

section Arguments

variable (cfg : ServerConfig) (fuel : Nat)

def ServerConfig.primitives (r : Representation) : Primitives :=
  r.primitives cfg.hostOrder cfg.assertions cfg.marshallReference cfg.unmarshallReference

/-- The loop of `Unmarshall_Argument_List`, `unmarshall` being `Unmarshall_To_Any`. -/
def unmarshallArguments (unmarshall : TcRef → Content → DecodeProg Content) (direction : Flags) :
    List Argument → DecodeProg (List Argument)
  | [] => return []
  | arg :: args => do
    if arg.argModes = direction ∨ arg.argModes = argInout then
      let value ← unmarshall arg.tc arg.value
      if ← onTransfer found then return { arg with value } :: args
      else return { arg with value } :: (← unmarshallArguments unmarshall direction args)
    else return arg :: (← unmarshallArguments unmarshall direction args)

def unmarshallArgumentList (r : Representation) (args : List Argument) (direction : Flags)
    (firstArgAlignment : Nat) : DecodeProg (List Argument) := do
  onlyIf (args ≠ []) (fromBuffer (alignPosition firstArgAlignment))
  let R := cfg.primitives r
  unmarshallArguments
    (unmarshallToAny cfg.toConfig R (cfg.unmarshallTypeCode R) fuel) direction args

/-- `Data_Alignment` of GIOP 1.2. -/
def dataAlignment : Nat := 8

/-- A session, as far as the arguments of requests and the code sets are concerned. -/
structure ArgumentSession where
  decoder : Decoder
  repr : Representation
  csnComplete : Bool
  csContext : Option CodeSets

abbrev ArgumentProg := EStateM Exn ArgumentSession

def onDecoder {α : Type} (p : DecodeProg α) : ArgumentProg α :=
  Program.zoom ArgumentSession.decoder (fun s d => { s with decoder := d }) p

def replaceMarshal5ToBadParam23 (e : SysError) (completed : CompletionStatus) : SysError :=
  if e.id = .marshalE ∧ e.minor = 5 then ⟨.badParamE, 23, completed⟩ else e

/-- `Handle_Unmarshall_Arguments`: the arguments, or the error. -/
def handleUnmarshallArgumentList (args : List Argument) :
    ArgumentProg (Except SysError (List Argument)) := do
  let s ← get
  let args ← onDecoder (unmarshallArgumentList cfg fuel s.repr args argIn dataAlignment)
  let error := (← get).decoder.error
  modify fun s => { s with decoder := { s.decoder with
    buffer := Buffer.new cfg.hostOrder, error := none } }
  match error with
  | some e => return .error (replaceMarshal5ToBadParam23 e .completedNo)
  | none => return .ok args

/-- The part of `Process_Request` that is about code sets. -/
def completeNegotiation (csp : Option CodeSets) : ArgumentProg Unit := do
  let s ← get
  if s.csnComplete = false then
    set { s with csContext := none, csnComplete := true }
    match csp with
    | some cs => do
      modify fun s => { s with csContext := some cs }
      let repr ← evaluate (setConverters cfg.registry cs)
      modify fun s => { s with repr }
    | none => return ()

/-- The arguments that are unmarshalled at once, if any are. -/
def argumentsAtOnce : Option (List Argument) → ArgumentProg (Option (List Argument))
  | none => return none
  | some args => do
    match ← handleUnmarshallArgumentList cfg fuel args with
    | .error _ => throw .programError
    | .ok args => return some args

/-- `Process_Request` for an object key; `emptyArgs` is the result of `Get_Empty_Arg_List`, and
`contextData` the service context of code sets.  The value is the arguments of the request that is
queued. -/
def processKeyRequest (emptyArgs : Option (List Argument)) (contextData : Option (List UInt8)) :
    ArgumentProg (Option (List Argument)) := do
  let args ← argumentsAtOnce cfg fuel emptyArgs
  let csp ← evaluate (contextData.mapM (toCodeSets cfg.hostOrder))
  completeNegotiation cfg csp
  return args

/-- What the servant is given when the arguments are unmarshalled at once. -/
def immediateArguments (args : List Argument) (contextData : Option (List UInt8))
    (s : ArgumentSession) : Option (List Argument) :=
  match processKeyRequest cfg fuel (some args) contextData s with
  | .ok args _ => args
  | .error _ _ => none

/-- What the servant is given when it asks for the arguments itself. -/
def deferredArguments (args : List Argument) (contextData : Option (List UInt8))
    (s : ArgumentSession) : Option (List Argument) :=
  match (do
    let _ ← processKeyRequest cfg fuel none contextData
    handleUnmarshallArgumentList cfg fuel args) s with
  | .ok (.ok args) _ => some args
  | _ => none

def argumentsBy (r : Representation) (args : List Argument) (d : Decoder) :
    Option (List Argument) :=
  match unmarshallArgumentList cfg fuel r args argIn dataAlignment d with
  | .ok args d' => if d'.error = none then some args else none
  | .error _ _ => none

end Arguments

/-! ## What becomes of the arguments -/

section Results

variable {cfg : ServerConfig} {fuel : Nat} {args : List Argument} {contextData : Option (List UInt8)}
  {s : ArgumentSession}

def carried (cfg : ServerConfig) (contextData : Option (List UInt8)) : Option CodeSets :=
  match contextData with
  | some data => (toCodeSets cfg.hostOrder data).toOption
  | none => none

/-- The representation of the session after a request, unless that is not queued. -/
def reprAfter (cfg : ServerConfig) (contextData : Option (List UInt8)) (s : ArgumentSession) :
    Option Representation :=
  match contextData.mapM (toCodeSets cfg.hostOrder) with
  | .error _ => none
  | .ok csp =>
    if s.csnComplete = true then some s.repr
    else
      match csp with
      | some cs => cfg.registry.converters cs
      | none => some s.repr

theorem completeNegotiation_eq (csp : Option CodeSets) (d : Decoder)
    (hdata : contextData.mapM (toCodeSets cfg.hostOrder) = .ok csp) :
    (∃ t, reprAfter cfg contextData s = some t.repr ∧ t.decoder = d ∧
        completeNegotiation cfg csp { s with decoder := d } = .ok () t) ∨
      reprAfter cfg contextData s = none ∧
        ∃ e t, completeNegotiation cfg csp { s with decoder := d } = .error e t := by
  obtain ⟨d₀, repr, complete, context⟩ := s
  rw [reprAfter, hdata]
  cases complete with
  | true => exact .inl ⟨⟨d, repr, true, context⟩, rfl, rfl, rfl⟩
  | false =>
    cases csp with
    | none => exact .inl ⟨⟨d, repr, true, none⟩, rfl, rfl, rfl⟩
    | some cs =>
      cases hconverters : cfg.registry.converters cs with
      | none =>
        refine .inr ⟨hconverters, .constraintError, ⟨d, repr, true, some cs⟩, ?_⟩
        show (evaluate (setConverters cfg.registry cs) >>= _ : ArgumentProg Unit) _ = _
        rw [setConverters, hconverters]
        rfl
      | some r =>
        refine .inl ⟨⟨d, r, true, some cs⟩, hconverters, rfl, ?_⟩
        show (evaluate (setConverters cfg.registry cs) >>= _ : ArgumentProg Unit) _ = _
        rw [setConverters, hconverters]
        rfl

theorem handleUnmarshallArgumentList_eq (cfg : ServerConfig) (fuel : Nat) (args : List Argument)
    (s : ArgumentSession) :
    (∃ values d, argumentsBy cfg fuel s.repr args s.decoder = some values ∧
        handleUnmarshallArgumentList cfg fuel args s = .ok (.ok values) { s with decoder := d }) ∨
      argumentsBy cfg fuel s.repr args s.decoder = none ∧
        ((∃ e t, handleUnmarshallArgumentList cfg fuel args s = .ok (.error e) t) ∨
          ∃ e t, handleUnmarshallArgumentList cfg fuel args s = .error e t) := by
  unfold argumentsBy handleUnmarshallArgumentList
  rw [Program.bind_get]
  cases h : unmarshallArgumentList cfg fuel s.repr args argIn dataAlignment s.decoder with
  | error e d =>
    have hd : onDecoder (unmarshallArgumentList cfg fuel s.repr args argIn dataAlignment) s =
        .error e { s with decoder := d } := Program.zoom_error h
    exact .inr ⟨rfl, .inr ⟨e, _, Program.bind_error hd⟩⟩
  | ok values d =>
    have hd : onDecoder (unmarshallArgumentList cfg fuel s.repr args argIn dataAlignment) s =
        .ok values { s with decoder := d } := Program.zoom_ok h
    rw [Program.bind_ok hd, Program.bind_get]
    cases herror : d.error with
    | none =>
      refine .inl ⟨values, { d with buffer := Buffer.new cfg.hostOrder, error := none },
        if_pos herror, rfl⟩
    | some e =>
      exact .inr ⟨if_neg (by rw [herror]; exact Option.some_ne_none e), .inl ⟨_, _, rfl⟩⟩

variable (cfg fuel contextData s) in
theorem processKeyRequest_none :
    (∃ t, reprAfter cfg contextData s = some t.repr ∧ t.decoder = s.decoder ∧
        processKeyRequest cfg fuel none contextData s = .ok none t) ∨
      reprAfter cfg contextData s = none ∧
        ∃ e t, processKeyRequest cfg fuel none contextData s = .error e t := by
  rw [processKeyRequest, argumentsAtOnce, pure_bind]
  cases hdata : contextData.mapM (toCodeSets cfg.hostOrder) with
  | error e =>
    refine .inr ⟨?_, e, s, rfl⟩
    rw [reprAfter, hdata]
  | ok csp =>
    rcases completeNegotiation_eq (s := s) csp s.decoder hdata with
      ⟨t, hr, hd, hok⟩ | ⟨hr, e, t, herror⟩
    · refine .inl ⟨t, hr, hd, ?_⟩
      rw [Program.bind_evaluate rfl, Program.bind_ok hok]
      rfl
    · refine .inr ⟨hr, e, t, ?_⟩
      rw [Program.bind_evaluate rfl, Program.bind_error herror]

theorem deferredArguments_eq : deferredArguments cfg fuel args contextData s =
    (reprAfter cfg contextData s).bind fun r => argumentsBy cfg fuel r args s.decoder := by
  unfold deferredArguments
  rcases processKeyRequest_none cfg fuel contextData s with
    ⟨t, hr, hd, hok⟩ | ⟨hr, e, t, herror⟩
  · rw [hr, Option.bind_some, ← hd, Program.bind_ok hok]
    rcases handleUnmarshallArgumentList_eq cfg fuel args t with
      ⟨values, d, hv, h⟩ | ⟨hv, ⟨e, u, h⟩ | ⟨e, u, h⟩⟩
    · rw [hv, h]
    · rw [hv, h]
    · rw [hv, h]
  · rw [hr, Program.bind_error herror]
    rfl

theorem immediateArguments_eq : immediateArguments cfg fuel args contextData s =
    (reprAfter cfg contextData s).bind fun _ => argumentsBy cfg fuel s.repr args s.decoder := by
  unfold immediateArguments
  rw [processKeyRequest, argumentsAtOnce]
  rcases handleUnmarshallArgumentList_eq cfg fuel args s with
    ⟨values, d, hv, h⟩ | ⟨hv, ⟨e, u, h⟩ | ⟨e, u, h⟩⟩
  · rw [hv, bind_assoc, Program.bind_ok h]
    rw [pure_bind]
    cases hdata : contextData.mapM (toCodeSets cfg.hostOrder) with
    | error e =>
      rw [reprAfter, hdata]
      rfl
    | ok csp =>
      rw [Program.bind_evaluate rfl]
      rcases completeNegotiation_eq (s := s) csp d hdata with ⟨t, hr, -, hok⟩ | ⟨hr, e, t, herror⟩
      · rw [hr, Program.bind_ok hok]
        rfl
      · rw [hr, Program.bind_error herror]
        rfl
  · rw [hv, bind_assoc, Program.bind_ok h]
    cases reprAfter cfg contextData s <;> rfl
  · rw [hv, bind_assoc, Program.bind_error h]
    cases reprAfter cfg contextData s <;> rfl

end Results

/-! ## Converters that read alike -/

/-- Characters are ISO 8859-1 when there is no converter for them. -/
def Representation.effective (r : Representation) : CharConverter × Option WideConverter :=
  (r.cConverter.getD .iso88591Native, r.wConverter)

/-- The wide converter is one that `Set_Converters` of GIOP 1.2 has set. -/
def Representation.Giop12 (r : Representation) : Prop := ∀ w ∈ r.wConverter, w.giop12Mode = true

theorem Registry.converters_giop12 {reg : Registry} {cs : CodeSets} {r : Representation}
    (h : reg.converters cs = some r) : r.Giop12 := by
  obtain ⟨w, -, rfl⟩ := Option.map_eq_some_iff.mp h
  intro k hk
  obtain rfl : _ = k := Option.some.inj hk
  rfl

section Alike

variable {cfg : ServerConfig} {fuel : Nat} {args : List Argument} {d : Decoder} {r₁ r₂ : Representation}

theorem primitives_eq (h : r₁.effective = r₂.effective) : cfg.primitives r₁ = cfg.primitives r₂ := by
  obtain ⟨c₁, w₁⟩ := r₁
  obtain ⟨c₂, w₂⟩ := r₂
  obtain ⟨hc, hw⟩ := Prod.mk.inj h
  obtain rfl : w₁ = w₂ := hw
  rcases c₁ with _ | _ | _ <;> rcases c₂ with _ | _ | _ <;> first | rfl | cases hc

theorem argumentsBy_eq (h : r₁.effective = r₂.effective) :
    argumentsBy cfg fuel r₁ args d = argumentsBy cfg fuel r₂ args d := by
  unfold argumentsBy unmarshallArgumentList
  rw [primitives_eq h]

/-! ## Converters that read differently -/

/-- The arguments of a request are `octets`. -/
def decoderOf (octets : List UInt8) : Decoder :=
  { buffer := receiveBuffer octets (Buffer.new .bigEndian), error := none, heap := []
    tcMap := none, currentComplex := 0 }

/-- An argument of type `char` or `wchar`. -/
def charArgument (k : TCKind) : List Argument := [⟨.ptc k, .noContent, argIn⟩]

variable (cfg) in
/-- UTF-8 has no character of one octet for the octet 233. -/
theorem argumentsBy_char (w : Option WideConverter) :
    (argumentsBy cfg 1 ⟨none, w⟩ (charArgument .tkChar) (decoderOf [233])).isSome ∧
      (argumentsBy cfg 1 ⟨some .iso88591Native, w⟩ (charArgument .tkChar) (decoderOf [233])).isSome ∧
      ¬(argumentsBy cfg 1 ⟨some .iso88591Utf8, w⟩ (charArgument .tkChar) (decoderOf [233])).isSome := by
  obtain ⟨⟨host, fast, eq⟩, assertions, m, u, tcs, reg⟩ := cfg
  cases host
  · exact ⟨rfl, rfl, Bool.noConfusion⟩
  · exact ⟨rfl, rfl, Bool.noConfusion⟩

variable (cfg) in
/-- Both code sets have wide characters of two octets, which no converter reads. -/
theorem argumentsBy_wchar (c : Option CharConverter) (k : WideCodeSet) :
    (argumentsBy cfg 1 ⟨c, some ⟨k, true⟩⟩ (charArgument .tkWidechar) (decoderOf [2, 0, 97])).isSome ∧
      ¬(argumentsBy cfg 1 ⟨c, none⟩ (charArgument .tkWidechar) (decoderOf [2, 0, 97])).isSome := by
  obtain ⟨⟨host, fast, eq⟩, assertions, m, u, tcs, reg⟩ := cfg
  cases host <;> cases k
  all_goals exact ⟨rfl, Bool.noConfusion⟩

variable (cfg) in
/-- Only UTF-16 has a byte order mark. -/
theorem argumentsBy_bom (c : Option CharConverter) :
    (argumentsBy cfg 1 ⟨c, some ⟨.ucs2Utf16, true⟩⟩ (charArgument .tkWidechar)
        (decoderOf [4, 254, 255, 0, 97])).isSome ∧
      ¬(argumentsBy cfg 1 ⟨c, some ⟨.ucs2Native, true⟩⟩ (charArgument .tkWidechar)
        (decoderOf [4, 254, 255, 0, 97])).isSome := by
  obtain ⟨⟨host, fast, eq⟩, assertions, m, u, tcs, reg⟩ := cfg
  cases host
  · exact ⟨rfl, Bool.noConfusion⟩
  · exact ⟨rfl, Bool.noConfusion⟩

theorem ne_of_isSome {α : Type} {x y : Option α} (hx : x.isSome = true) (hy : ¬y.isSome = true) :
    x ≠ y := by
  rintro rfl
  exact hy hx

variable (cfg) in
/-- Converters that differ read some argument differently. -/
theorem exists_argumentsBy_ne (h₁ : r₁.Giop12) (h₂ : r₂.Giop12) (hne : r₁.effective ≠ r₂.effective) :
    ∃ args d, argumentsBy cfg 1 r₁ args d ≠ argumentsBy cfg 1 r₂ args d := by
  obtain ⟨c₁, w₁⟩ := r₁
  obtain ⟨c₂, w₂⟩ := r₂
  by_cases hw : w₁ = w₂
  · subst hw
    obtain ⟨hnone, hnative, hutf8⟩ := argumentsBy_char cfg w₁
    refine ⟨charArgument .tkChar, decoderOf [233], ?_⟩
    rcases c₁ with _ | _ | _ <;> rcases c₂ with _ | _ | _
    all_goals first
      | exact absurd rfl hne
      | exact ne_of_isSome hnone hutf8
      | exact ne_of_isSome hnative hutf8
      | exact (ne_of_isSome hnone hutf8).symm
  · rcases w₁ with _ | ⟨k₁, m₁⟩ <;> rcases w₂ with _ | ⟨k₂, m₂⟩
    · exact absurd rfl hw
    · obtain rfl : m₂ = true := h₂ _ rfl
      have h := argumentsBy_wchar cfg c₂ k₂
      have h' := argumentsBy_wchar cfg c₁ k₂
      exact ⟨_, _, (ne_of_isSome h.1 h'.2).symm⟩
    · obtain rfl : m₁ = true := h₁ _ rfl
      have h := argumentsBy_wchar cfg c₁ k₁
      have h' := argumentsBy_wchar cfg c₂ k₁
      exact ⟨_, _, ne_of_isSome h.1 h'.2⟩
    · obtain rfl : m₁ = true := h₁ _ rfl
      obtain rfl : m₂ = true := h₂ _ rfl
      have h := argumentsBy_bom cfg c₁
      have h' := argumentsBy_bom cfg c₂
      cases k₁ <;> cases k₂
      · exact absurd rfl hw
      · exact ⟨_, _, (ne_of_isSome h'.1 h.2).symm⟩
      · exact ⟨_, _, ne_of_isSome h.1 h'.2⟩
      · exact absurd rfl hw

end Alike

/-! ## Requests of a session -/

/-- A request that has been processed on a session. -/
structure KeyRequest where
  emptyArgs : Option (List Argument)
  contextData : Option (List UInt8)
  decoder : Decoder
  fuel : Nat

def ArgumentSession.start (host : Endianness) : ArgumentSession :=
  { decoder := {
      buffer := Buffer.new host, error := none, heap := [], tcMap := none, currentComplex := 0 }
    repr := ⟨none, none⟩, csnComplete := false, csContext := none }

def ArgumentSession.process (cfg : ServerConfig) (s : ArgumentSession) (q : KeyRequest) :
    ArgumentSession :=
  stateAfter (processKeyRequest cfg q.fuel q.emptyArgs q.contextData) { s with decoder := q.decoder }

def ArgumentSession.after (cfg : ServerConfig) (earlier : List KeyRequest) : ArgumentSession :=
  earlier.foldl (process cfg) (start cfg.hostOrder)

def ArgumentSession.arrive (s : ArgumentSession) (d : Decoder) : ArgumentSession :=
  { s with decoder := d }

/-- Whatever the arguments of the request are, the servant is given the same however they are
unmarshalled, and as the code sets of the request say. -/
def ArgumentsAgree (cfg : ServerConfig) (earlier : List KeyRequest)
    (contextData : Option (List UInt8)) : Prop :=
  ∀ (fuel : Nat) (args : List Argument) (d : Decoder),
    immediateArguments cfg fuel args contextData ((ArgumentSession.after cfg earlier).arrive d) =
        deferredArguments cfg fuel args contextData ((ArgumentSession.after cfg earlier).arrive d) ∧
      ∀ cs r, carried cfg contextData = some cs → cfg.registry.converters cs = some r →
        deferredArguments cfg fuel args contextData ((ArgumentSession.after cfg earlier).arrive d) =
          argumentsBy cfg fuel r args d

/-- The session already has the converters for the code sets of the request, if there are any. -/
def ConvertersInPlace (cfg : ServerConfig) (earlier : List KeyRequest)
    (contextData : Option (List UInt8)) : Prop :=
  ∀ cs r, carried cfg contextData = some cs → cfg.registry.converters cs = some r →
    (ArgumentSession.after cfg earlier).repr.effective = r.effective

section Run

variable {cfg : ServerConfig} {α β : Type}

structure ArgumentSession.Inv (s : ArgumentSession) : Prop where
  unset : s.csnComplete = false → s.repr = ⟨none, none⟩
  giop12 : s.repr.Giop12

/-- The invariant is kept. -/
def Keeps (p : ArgumentProg α) : Prop := ∀ s : ArgumentSession, s.Inv → (stateAfter p s).Inv

theorem Keeps.bind {p : ArgumentProg α} {f : α → ArgumentProg β} (hp : Keeps p)
    (hf : ∀ a, Keeps (f a)) : Keeps (p >>= f) := by
  intro s hs
  have hinv := hp s hs
  cases h : p s with
  | ok a t =>
    rw [Program.stateAfter_ok h] at hinv
    have hnext := hf a t hinv
    unfold stateAfter at hnext ⊢
    rw [Program.bind_ok h]
    exact hnext
  | error e t =>
    rw [Program.stateAfter_error h] at hinv
    rw [Program.stateAfter_error (Program.bind_error h)]
    exact hinv

theorem Keeps.pure (a : α) : Keeps (Pure.pure a : ArgumentProg α) := fun _ hs => hs

theorem Keeps.throw (e : Exn) : Keeps (MonadExcept.throw e : ArgumentProg α) := fun _ hs => hs

theorem Keeps.evaluate (x : Except Exn α) : Keeps (Program.evaluate x : ArgumentProg α) := by
  cases x with
  | ok a => exact .pure a
  | error e => exact .throw e

theorem Keeps.onDecoder (p : DecodeProg α) : Keeps (PolyORB.onDecoder p) := by
  intro s hs
  unfold PolyORB.onDecoder stateAfter Program.zoom
  cases p s.decoder with
  | ok a d => exact ⟨hs.unset, hs.giop12⟩
  | error e d => exact ⟨hs.unset, hs.giop12⟩

theorem keeps_handleUnmarshallArgumentList (fuel : Nat) (args : List Argument) :
    Keeps (handleUnmarshallArgumentList cfg fuel args) := by
  refine .bind (fun _ hs => hs) fun s => .bind (.onDecoder _) fun values => ?_
  refine .bind (fun _ hs => hs) fun t => .bind (fun u hu => ⟨hu.unset, hu.giop12⟩) fun _ => ?_
  cases t.decoder.error with
  | none => exact .pure _
  | some e => exact .pure _

theorem keeps_completeNegotiation (csp : Option CodeSets) : Keeps (completeNegotiation cfg csp) := by
  rintro ⟨d, repr, complete, context⟩ hs
  cases complete with
  | true => exact hs
  | false =>
    cases csp with
    | none => exact ⟨fun h => Bool.noConfusion h, hs.giop12⟩
    | some cs =>
      have hset : completeNegotiation cfg (some cs) ⟨d, repr, false, context⟩ =
          (do
            let repr ← evaluate (setConverters cfg.registry cs)
            modify fun s => { s with repr } : ArgumentProg Unit) ⟨d, repr, true, some cs⟩ := rfl
      unfold stateAfter
      rw [hset, setConverters]
      cases hconverters : cfg.registry.converters cs with
      | none => exact ⟨fun h => Bool.noConfusion h, hs.giop12⟩
      | some r => exact ⟨fun h => Bool.noConfusion h, Registry.converters_giop12 hconverters⟩

theorem keeps_processKeyRequest (fuel : Nat) (emptyArgs : Option (List Argument))
    (contextData : Option (List UInt8)) :
    Keeps (processKeyRequest cfg fuel emptyArgs contextData) := by
  refine .bind ?_ fun args => .bind (.evaluate _) fun csp => .bind (keeps_completeNegotiation csp)
    fun _ => .pure _
  cases emptyArgs with
  | none => exact .pure _
  | some args =>
    refine .bind (keeps_handleUnmarshallArgumentList fuel args) fun result => ?_
    cases result with
    | error e => exact .throw _
    | ok values => exact .pure _

theorem ArgumentSession.inv_foldl (earlier : List KeyRequest) :
    ∀ s : ArgumentSession, s.Inv → (earlier.foldl (process cfg) s).Inv := by
  induction earlier with
  | nil => exact fun _ hs => hs
  | cons q earlier ih =>
    intro s hs
    exact ih _ (keeps_processKeyRequest q.fuel q.emptyArgs q.contextData _ ⟨hs.unset, hs.giop12⟩)

theorem ArgumentSession.inv_after (earlier : List KeyRequest) : (after cfg earlier).Inv := by
  have hstart : (start cfg.hostOrder).Inv := ⟨fun _ => rfl, fun w hw => by cases hw⟩
  exact inv_foldl earlier _ hstart

variable {contextData : Option (List UInt8)}

theorem mapM_toCodeSets {cs : CodeSets} (h : carried cfg contextData = some cs) :
    contextData.mapM (toCodeSets cfg.hostOrder) = .ok (some cs) := by
  cases contextData with
  | none => cases h
  | some data =>
    rw [carried] at h
    cases hdata : toCodeSets cfg.hostOrder data with
    | error e =>
      rw [hdata] at h
      cases h
    | ok cs' =>
      rw [hdata] at h
      obtain rfl : cs' = cs := Option.some.inj h
      show (some <$> toCodeSets cfg.hostOrder data : Except Exn _) = _
      rw [hdata]
      rfl

theorem reprAfter_carried {cs : CodeSets} {r : Representation}
    {s : ArgumentSession} (h : carried cfg contextData = some cs)
    (hr : cfg.registry.converters cs = some r) :
    reprAfter cfg contextData s = some (if s.csnComplete = true then s.repr else r) := by
  rw [reprAfter, mapM_toCodeSets h]
  split_ifs with hcomplete
  · rfl
  · exact hr

theorem reprAfter_cases {r : Representation}
    {s : ArgumentSession} (h : reprAfter cfg contextData s = some r) :
    r = s.repr ∨ ∃ cs, carried cfg contextData = some cs ∧ cfg.registry.converters cs = some r := by
  cases contextData with
  | none =>
    have hnone : reprAfter cfg none s = some s.repr := by
      show (if s.csnComplete = true then some s.repr else some s.repr) = _
      rw [ite_self]
    rw [hnone] at h
    exact .inl (Option.some.inj h).symm
  | some data =>
    cases hdata : toCodeSets cfg.hostOrder data with
    | error e =>
      have hnone : reprAfter cfg (some data) s = none := by
        have hmap : (some data).mapM (toCodeSets cfg.hostOrder) = .error e := by
          show (some <$> toCodeSets cfg.hostOrder data : Except Exn _) = _
          rw [hdata]
          rfl
        rw [reprAfter, hmap]
      rw [hnone] at h
      cases h
    | ok cs =>
      have hcs : carried cfg (some data) = some cs := by
        rw [carried, hdata]
        rfl
      rw [reprAfter, mapM_toCodeSets hcs] at h
      split_ifs at h with hcomplete
      · exact .inl (Option.some.inj h).symm
      · exact .inr ⟨cs, hcs, h⟩

/-- The arguments of a request are given to the servant alike if and only if the session has the
converters for its code sets when it arrives. -/
theorem argumentsAgree_iff (cfg : ServerConfig) (earlier : List KeyRequest)
    (contextData : Option (List UInt8)) :
    ArgumentsAgree cfg earlier contextData ↔ ConvertersInPlace cfg earlier contextData := by
  obtain ⟨s, hs⟩ : ∃ s, s = ArgumentSession.after cfg earlier := ⟨_, rfl⟩
  have hinv : s.Inv := by
    rw [hs]
    exact ArgumentSession.inv_after earlier
  unfold ArgumentsAgree ConvertersInPlace
  rw [← hs]
  simp only [immediateArguments_eq, deferredArguments_eq]
  constructor
  · intro h cs r hcs hr
    by_contra hne
    obtain ⟨args, d, hdiffer⟩ := exists_argumentsBy_ne cfg hinv.giop12
      (Registry.converters_giop12 hr) hne
    obtain ⟨hagree, hcarried⟩ := h 1 args d
    have hafter := reprAfter_carried (s := s.arrive d) hcs hr
    rw [hafter] at hagree hcarried
    have hby := hcarried cs r hcs hr
    exact hdiffer (hagree.trans hby)
  · intro h fuel args d
    refine ⟨?_, fun cs r hcs hr => ?_⟩
    · cases hafter : reprAfter cfg contextData (s.arrive d) with
      | none => rfl
      | some r =>
        rcases reprAfter_cases hafter with rfl | ⟨cs, hcs, hr⟩
        · rfl
        · exact argumentsBy_eq (h cs r hcs hr)
    · rw [reprAfter_carried (s := s.arrive d) hcs hr, Option.bind_some]
      split_ifs
      · exact argumentsBy_eq (h cs r hcs hr)
      · rfl

end Run

/-- A service context with the code sets ISO 8859-1 and UCS-2, in big endian order. -/
def latin1Ucs2Context : List UInt8 := [0, 0, 0, 0, 0, 1, 0, 1, 0, 1, 1, 0]

/-- A big endian server, which has no references to transfer. -/
def ada95Server : ServerConfig :=
  { hostOrder := .bigEndian, enableFastPath := false
    structuredEq := fun _ _ _ _ => .ok false
    assertions := true
    marshallReference := fun _ => throw .programError
    unmarshallReference := throw .programError
    unmarshallTypeCode := fun _ => throw .programError
    registry := .ada95 }

theorem not_argumentsAgree :
    ¬∀ (cfg : ServerConfig) (earlier : List KeyRequest) (contextData : Option (List UInt8)),
      ArgumentsAgree cfg earlier contextData := by
  intro h
  have hagree := (h ada95Server [] (some latin1Ucs2Context) 1 (charArgument .tkWidechar)
    (decoderOf [2, 0, 97])).1
  have hdeferred : (deferredArguments ada95Server 1 (charArgument .tkWidechar)
      (some latin1Ucs2Context) ((ArgumentSession.after ada95Server []).arrive
        (decoderOf [2, 0, 97]))).isSome := by decide +kernel
  rw [← hagree] at hdeferred
  exact absurd hdeferred (by decide +kernel)

end PolyORB
