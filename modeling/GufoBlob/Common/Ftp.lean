import GufoBlob.Utils

/-!
# FTP replies and listings

`common/ftp.py`: the reply codes, the features of a server, and the parsers of what a server sends.
-/

namespace GufoBlob

open Text

namespace Ftp

/-! ## Reply codes -/

def transferReady : Int := 125
def transferAlreadyOpen : Int := 150
def ok : Int := 200
def status : Int := 211
def sizeOk : Int := 213
def ready : Int := 220
def transferDone : Int := 226
def pasv : Int := 227
def loginOk : Int := 230
def actionOk : Int := 250
def created : Int := 257
def userOk : Int := 331
def notFound : Int := 550

end Ftp

/-- The commands beyond RFC 959 that a server supports. -/
structure FTPFeatures where
  supportsMlsd : Bool := false
  supportsMlst : Bool := false
  supportsSize : Bool := false
  deriving DecidableEq

namespace Ftp

/-- `b.upper()` of one octet. -/
def upper (b : UInt8) : UInt8 := if 97 ≤ b && b ≤ 122 then b - 32 else b

def mlsd : Bytes := encode "MLSD".toList

def size : Bytes := encode "SIZE".toList

/-- One iteration of `from_feat`. A line of white space has no first word. -/
def addFeature (features : FTPFeatures) (line : Bytes) : Except PyExc FTPFeatures :=
  if line.isEmpty then .ok features
  else
    match words line with
    | [] => .error .indexError
    | word :: _ =>
        if word.map upper = mlsd then
          .ok { features with supportsMlst := true, supportsMlsd := true }
        else if word.map upper = size then
          .ok { features with supportsSize := true }
        else .ok features

/-- `FTPFeatures.from_feat`. -/
def fromFeat (feat : List Bytes) : Except PyExc FTPFeatures := feat.foldlM addFeature {}

/-! ## The address in a reply to PASV -/

/-- `n` numbers separated by commas and then a closing parenthesis. -/
def pasvNumbers : Nat → Bytes → Option (List Bytes)
  | 0, _ => none
  | n + 1, b =>
      let number := b.takeWhile isDigit
      if number.isEmpty then none
      else
        match n, b.dropWhile isDigit with
        | 0, 41 :: _ => some [number]
        | _ + 1, 44 :: rest => (pasvNumbers n rest).map (number :: ·)
        | _, _ => none

/-- `rx_pasv.search(line)`: the six numbers of the first match. -/
def searchPasv : Bytes → Option (List Bytes)
  | [] => none
  | b :: rest =>
      match if b = 40 then pasvNumbers 6 rest else none with
      | some numbers => some numbers
      | none => searchPasv rest

/-- The address and the port of the numbers `h1,h2,h3,h4,p1,p2`. -/
def pasvAddress (octets : List Nat) : Str × Nat :=
  ((".".intercalate ((octets.take 4).map toString)).toList,
    (octets.getD 4 0) <<< 8 + octets.getD 5 0)

/-- `parse_pasv`. -/
def parsePasv (line : Bytes) : Except PyExc (Str × Nat) :=
  match searchPasv line with
  | none => .error (.blobError ("Invalid PASV response: " ++ reprBytes line))
  | some numbers => (numbers.mapM bytesToOctet).map pasvAddress

theorem pasvAddress_port_le {octets : List Nat} (h : ∀ n ∈ octets, n ≤ 255) :
    (pasvAddress octets).2 ≤ 65535 := by
  have hoctet : ∀ i, octets.getD i 0 ≤ 255 := by
    intro i
    rw [List.getD_eq_getElem?_getD]
    cases hi : octets[i]? with
    | none => exact Nat.zero_le _
    | some n => exact h n (List.mem_of_getElem? hi)
  have hhigh := hoctet 4
  have hlow := hoctet 5
  unfold pasvAddress
  rw [Nat.shiftLeft_eq]
  omega

/-- The port of a reply fits into two octets. -/
theorem parsePasv_port_le {line : Bytes} {addr : Str × Nat} (h : parsePasv line = .ok addr) :
    addr.2 ≤ 65535 := by
  unfold parsePasv at h
  split at h
  · cases h
  · next numbers _ =>
      cases hoctets : numbers.mapM bytesToOctet with
      | error e =>
          rw [hoctets] at h
          cases h
      | ok octets =>
          rw [hoctets] at h
          obtain rfl : pasvAddress octets = addr := Except.ok.inj h
          apply pasvAddress_port_le
          intro n hn
          obtain ⟨x, -, hx⟩ := exists_of_mem_mapM hoctets hn
          exact bytesToOctet_le hx

/-! ## Listings -/

/-- `rx_unix_perm.match(line)`: `d` or `-`, and three times `rwx` with any letter replaced by `-`. -/
def rxUnixPerm (line : Bytes) : Bool :=
  match line with
  | t :: r1 :: w1 :: x1 :: r2 :: w2 :: x2 :: r3 :: w3 :: x3 :: _ =>
      (t = 45 || t = 100) && [r1, r2, r3].all (fun b => b = 45 || b = 114) &&
        [w1, w2, w3].all (fun b => b = 45 || b = 119) &&
        [x1, x2, x3].all fun b => b = 45 || b = 120
  | _ => false

/-- The name in a listing, decoded; `e` is the text of the error. -/
def decodeName (b : Bytes) (e : String) : Except PyExc Str :=
  match decode b with
  | some name => .ok name
  | none => .error (.blobError e)

/-- `parse_list_line`. -/
def parseListLine (line : Bytes) : Except PyExc (Str × Bool) :=
  if !rxUnixPerm line then .error (.blobError ("unrecognized format: " ++ reprBytes line))
  else do
    let name ← decodeName ((words line).getLastD []) ("failed to decode: " ++ reprBytes line)
    return (name, line.head? = some 100)

/-- `b"type=dir"`. -/
def typeDir : Bytes := encode "type=dir".toList

/-- `parse_mlsd_line`. -/
def parseMlsdLine (line : Bytes) : Except PyExc (Str × Bool) := do
  let parts := line.splitOn 59
  let last := parts.getLastD []
  let name ← decodeName (rstrip (· = 47) (lstrip (· = 32) last))
    ("failed to decode: " ++ reprBytes last)
  return (name, parts.dropLast.any fun p => p = typeDir)

/-! ## Paths -/

def isSlash (c : Char) : Bool := c = '/'

/-- `"/".join(parts)`. -/
def joinSlash (parts : List Str) : Str := ['/'].intercalate parts

/-- `iter_parent_dirs`. -/
def iterParentDirs (key : Str) : List Str :=
  let parts := (strip isSlash key).splitOn '/'
  (List.range (parts.length - 1)).map fun n => joinSlash (parts.take (n + 1))

/-! ## What the parsers accept -/

theorem decodeName_eq_ok_iff {b : Bytes} {e : String} {name : Str} :
    decodeName b e = .ok name ↔ b = encode name := by
  unfold decodeName
  constructor
  · intro h
    split at h
    · next hd =>
        obtain rfl := Except.ok.inj h
        exact (encode_of_decode hd).symm
    · cases h
  · rintro rfl
    rw [decode_encode]

/-- A decoded name has a line feed only where its octets have one. -/
theorem lineFeed_of_decodeName {b : Bytes} {e : String} {name : Str}
    (h : decodeName b e = .ok name) (hlf : '\n' ∈ name) : 10 ∈ b := by
  rw [decodeName_eq_ok_iff.mp h]
  exact (mem_encode_iff (a := '\n') (by decide)).mpr hlf

/-- A parser of listings takes its names from the line. -/
def NamesFromLine (parser : Bytes → Except PyExc (Str × Bool)) : Prop :=
  ∀ line name isDir, parser line = .ok (name, isDir) → '\n' ∈ name → 10 ∈ line

theorem exists_of_mem_getLastD {x : UInt8} {l : List Bytes} (h : x ∈ l.getLastD []) :
    ∃ w ∈ l, x ∈ w := by
  cases l with
  | nil => cases h
  | cons v l =>
      refine ⟨(v :: l).getLast (List.cons_ne_nil v l), List.getLast_mem _, ?_⟩
      rwa [List.getLastD_eq_getLast?, List.getLast?_eq_some_getLast (List.cons_ne_nil v l)] at h

theorem parseListLine_names : NamesFromLine parseListLine := by
  intro line name isDir h hlf
  unfold parseListLine at h
  split at h
  · cases h
  · obtain ⟨n, hn, hret⟩ := except_bind_eq_ok_iff.mp h
    obtain rfl : n = name := congrArg Prod.fst (Except.ok.inj hret)
    obtain ⟨w, hw, hmem⟩ := exists_of_mem_getLastD (lineFeed_of_decodeName hn hlf)
    exact (infix_of_mem_words hw).subset hmem

theorem parseMlsdLine_names : NamesFromLine parseMlsdLine := by
  intro line name isDir h hlf
  unfold parseMlsdLine at h
  obtain ⟨n, hn, hret⟩ := except_bind_eq_ok_iff.mp h
  obtain rfl : n = name := congrArg Prod.fst (Except.ok.inj hret)
  have hstripped := lineFeed_of_decodeName hn hlf
  have hlast := (lstrip_isSuffix _ _).subset ((rstrip_isPrefix _ _).subset hstripped)
  obtain ⟨w, hw, hmem⟩ := exists_of_mem_getLastD hlast
  exact (infix_of_mem_splitOn hw).subset hmem

/-- A parent directory is a part of the key. -/
theorem infix_of_mem_iterParentDirs {key dir : Str} (h : dir ∈ iterParentDirs key) :
    dir <:+: key := by
  obtain ⟨n, -, rfl⟩ := List.mem_map.mp h
  have hpre := intercalate_take_isPrefix ['/'] (n + 1) ((strip isSlash key).splitOn '/')
  rw [List.intercalate_splitOn] at hpre
  exact hpre.isInfix.trans (strip_isInfix isSlash key)

end Ftp

end GufoBlob
