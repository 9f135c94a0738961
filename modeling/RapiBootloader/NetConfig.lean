import RapiBootloader.NetAddress
import RapiBootloader.Card

namespace RapiBootloader.NetConfig

open Lib.Overlay Lib.Strings Lib.Text Card NetAddress

def configMaxBytes : Nat := 8192

def configSection : List UInt8 := ascii "rapi-bootloader"

def toLower (c : UInt8) : UInt8 := if 65 ≤ c ∧ c ≤ 90 then c + 32 else c

/-- Names are compared without the spaces around them and without case. -/
def matchToken (token name : List UInt8) : Bool :=
  (trim isSpace token).map toLower = name.map toLower

structure TRapiNetConfig where
  static : Bool
  ipAddress : Quad
  netMask : Quad
  haveGateway : Bool
  gateway : Quad
  haveDNSServer : Bool
  dnsServer : Quad

def noConfig : TRapiNetConfig :=
  ⟨false, fun _ => 0, fun _ => 0, false, fun _ => 0, false, fun _ => 0⟩

inductive Key
  | ipaddress
  | netmask
  | gateway
  | dnsserver
deriving DecidableEq, Repr

def keyOf (token : List UInt8) : Option Key :=
  if matchToken token (ascii "ipaddress") then some .ipaddress
  else if matchToken token (ascii "netmask") then some .netmask
  else if matchToken token (ascii "gateway") then some .gateway
  else if matchToken token (ascii "dnsserver") then some .dnsserver
  else none

/-- The branches for the four keys. Only the net mask has no flag. -/
def setKey (c : TRapiNetConfig) (key : Key) (value : List UInt8) : TRapiNetConfig :=
  match key with
  | .ipaddress =>
    let r := parseAddress value c.ipAddress
    { c with ipAddress := r.2, static := c.static || r.1 }
  | .netmask => { c with netMask := (parseAddress value c.netMask).2 }
  | .gateway =>
    let r := parseAddress value c.gateway
    { c with gateway := r.2, haveGateway := c.haveGateway || r.1 }
  | .dnsserver =>
    let r := parseAddress value c.dnsServer
    { c with dnsServer := r.2, haveDNSServer := c.haveDNSServer || r.1 }

structure Scan where
  config : TRapiNetConfig
  inSection : Bool

def scanLine (s : Scan) (line : List UInt8) : Scan :=
  match trim isSpace line with
  | [] => s
  | c :: text =>
    if c = 35 then s
    else if c = 91 then
      { s with
        inSection := (c :: text).getLast? = some 93 && matchToken text.dropLast configSection }
    else if !s.inSection then s
    else
      let token := (c :: text).takeWhile (· != 61)
      if token.length = (c :: text).length then s
      else
        match keyOf token with
        | none => s
        | some key => { s with config := setKey s.config key ((c :: text).drop (token.length + 1)) }

def defaultMask : Quad := ![255, 255, 255, 0]

/-- What is set before the file is opened. The addresses stay as they are. -/
def cleared (before : TRapiNetConfig) : TRapiNetConfig :=
  { before with
    static := false
    haveGateway := false
    haveDNSServer := false
    netMask := defaultMask }

/-- The text the loop runs over: what fits the buffer, up to a NUL. -/
def textRead (file : List UInt8) : List UInt8 := (file.take (configMaxBytes - 1)).takeWhile (· != 0)

def rapiReadNetConfig (file : List UInt8) (openResult readResult : FResult)
    (before : TRapiNetConfig) : TRapiNetConfig :=
  if openResult ≠ .frOk then cleared before
  else if readResult ≠ .frOk then cleared before
  else (((textRead file).splitOn 10).foldl scanLine ⟨cleared before, false⟩).config

def TRapiNetConfig.address (c : TRapiNetConfig) : Key → Quad
  | .ipaddress => c.ipAddress
  | .netmask => c.netMask
  | .gateway => c.gateway
  | .dnsserver => c.dnsServer

def TRapiNetConfig.inEffect (c : TRapiNetConfig) : Key → Bool
  | .ipaddress => c.static
  | .netmask => true
  | .gateway => c.haveGateway
  | .dnsserver => c.haveDNSServer

def settingOf (line : List UInt8) : Option (Key × List UInt8) :=
  match trim isSpace line with
  | [] => none
  | c :: text =>
    if c = 35 ∨ c = 91 then none
    else
      let token := (c :: text).takeWhile (· != 61)
      if token.length = (c :: text).length then none
      else (keyOf token).map (fun key => (key, (c :: text).drop (token.length + 1)))

def sectionAfter (inSection : Bool) (line : List UInt8) : Bool :=
  match trim isSpace line with
  | [] => inSection
  | c :: text =>
    if c = 91 then (c :: text).getLast? = some 93 && matchToken text.dropLast configSection
    else inSection

def settings : Bool → List (List UInt8) → List (Key × List UInt8)
  | _, [] => []
  | inSection, line :: lines =>
    (if inSection then settingOf line else none).toList ++
      settings (sectionAfter inSection line) lines

def valuesIn (key : Key) (ss : List (Key × List UInt8)) : List (List UInt8) :=
  ss.filterMap (fun s => if s.1 = key then some s.2 else none)

/-- The values the lines of a text give to a key. -/
def valuesOf (key : Key) (text : List UInt8) : List (List UInt8) :=
  valuesIn key (settings false (text.splitOn 10))

theorem valuesIn_append (key : Key) (ss ts : List (Key × List UInt8)) :
    valuesIn key (ss ++ ts) = valuesIn key ss ++ valuesIn key ts := List.filterMap_append

theorem valuesIn_cons (key : Key) (s : Key × List UInt8) (ss : List (Key × List UInt8)) :
    valuesIn key (s :: ss) = if s.1 = key then s.2 :: valuesIn key ss else valuesIn key ss := by
  by_cases hk : s.1 = key <;> simp [valuesIn, hk]

theorem scanLine_eq (s : Scan) (line : List UInt8) :
    scanLine s line =
      ⟨((if s.inSection then settingOf line else none).toList).foldl
          (fun c setting => setKey c setting.1 setting.2) s.config,
        sectionAfter s.inSection line⟩ := by
  obtain ⟨config, inSection⟩ := s
  simp only [scanLine, settingOf, sectionAfter]
  cases trim isSpace line with
  | nil => cases inSection <;> rfl
  | cons c text =>
    by_cases hc : c = 35
    · subst hc
      cases inSection <;> rfl
    · by_cases hb : c = 91
      · subst hb
        cases inSection <;> rfl
      · cases inSection with
        | false => simp [hc, hb]
        | true =>
          simp only [hc, hb, or_self, if_false, if_true, Bool.not_true, Bool.false_eq_true]
          split
          · rfl
          · cases keyOf ((c :: text).takeWhile (· != 61)) <;> rfl

theorem foldl_scanLine (lines : List (List UInt8)) (s : Scan) :
    (lines.foldl scanLine s).config =
      (settings s.inSection lines).foldl (fun c setting => setKey c setting.1 setting.2) s.config := by
  induction lines generalizing s with
  | nil => rfl
  | cons line lines ih =>
    rw [List.foldl_cons, ih, scanLine_eq, settings, List.foldl_append]

theorem setKey_address (c : TRapiNetConfig) (key k : Key) (value : List UInt8) :
    (setKey c key value).address k =
      if key = k then overlay (c.address k) (leading value) else c.address k := by
  cases key <;> cases k <;> simp [setKey, TRapiNetConfig.address, parseAddress_snd]

theorem setKey_inEffect (c : TRapiNetConfig) (key k : Key) (value : List UInt8) :
    (setKey c key value).inEffect k =
      (c.inEffect k || (decide (key = k) && (dottedQuad value).isSome)) := by
  cases key <;> cases k <;> simp [setKey, TRapiNetConfig.inEffect, parseAddress_fst]

/-- The address of a key is what the values of that key leave of it. -/
theorem foldl_setKey_address (ss : List (Key × List UInt8)) (c : TRapiNetConfig) (k : Key) :
    (ss.foldl (fun c setting => setKey c setting.1 setting.2) c).address k =
      overlay (c.address k) (latest ((valuesIn k ss).map leading)) := by
  rw [← foldl_overlay]
  induction ss generalizing c with
  | nil => rfl
  | cons s ss ih =>
    rw [List.foldl_cons, ih, setKey_address, valuesIn_cons]
    by_cases hk : s.1 = k <;> simp [hk]

theorem foldl_setKey_inEffect (ss : List (Key × List UInt8)) (c : TRapiNetConfig) (k : Key) :
    (ss.foldl (fun c setting => setKey c setting.1 setting.2) c).inEffect k =
      (c.inEffect k || (valuesIn k ss).any (fun value => (dottedQuad value).isSome)) := by
  induction ss generalizing c with
  | nil => simp [valuesIn]
  | cons s ss ih =>
    rw [List.foldl_cons, ih, setKey_inEffect, valuesIn_cons]
    by_cases hk : s.1 = k <;> simp [hk, Bool.or_assoc]

theorem read_address (file : List UInt8) (before : TRapiNetConfig) (k : Key) :
    (rapiReadNetConfig file .frOk .frOk before).address k =
      overlay ((cleared before).address k) (latest ((valuesOf k (textRead file)).map leading)) := by
  rw [rapiReadNetConfig, if_neg (not_not.mpr rfl), if_neg (not_not.mpr rfl), foldl_scanLine,
    foldl_setKey_address]
  rfl

theorem read_inEffect (file : List UInt8) (before : TRapiNetConfig) (k : Key) :
    (rapiReadNetConfig file .frOk .frOk before).inEffect k =
      (decide (k = .netmask) ||
        (valuesOf k (textRead file)).any (fun value => (dottedQuad value).isSome)) := by
  rw [rapiReadNetConfig, if_neg (not_not.mpr rfl), if_neg (not_not.mpr rfl), foldl_scanLine,
    foldl_setKey_inEffect]
  cases k <;> rfl

end RapiBootloader.NetConfig
