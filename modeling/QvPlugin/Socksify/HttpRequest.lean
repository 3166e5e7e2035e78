import QvPlugin.Qt.Bytes

/-!
What `HttpProxy::onSocketReadyRead` makes of the data it reads from a client: the request line is
cut off, and of a request that is not a CONNECT a new one is written for the upstream server.
-/

set_option autoImplicit false
set_option relaxedAutoImplicit false

namespace QvPlugin.Socksify

open Qt Qt.QByteArray

/-- What is asked of a `QUrl`; `port` is `none` where `port()` is -1. -/
structure QUrl where
  isValid : Bool
  host : QString
  port : Option UInt16
  path : QString
  query : Option QString
  deriving DecidableEq

/-- The conversions of Qt that are used; `isValid()` is documented to be false of an empty URL. -/
structure QtText where
  fromEncoded : QByteArray → QUrl
  fromUtf8 : QByteArray → QString
  toUShort : QByteArray → UInt16
  isValid_empty : (fromEncoded []).isValid = false

inductive Request where
  | invalid
  | plain (host : QString) (port : UInt16) (reqData : QByteArray)
  | connect (host : QString) (port : UInt16)
  deriving DecidableEq

def crlf : QByteArray := [13, 10]

def space : UInt8 := 32

/-- The entries of the request line, and `reqData` without that line. -/
def cutLine (reqData : QByteArray) : List QByteArray × QByteArray :=
  let pos := indexOf reqData crlf
  (split (left reqData pos) space, removeFront reqData (pos + 2))

/-- `url.path()`, with the query if there is one. -/
def QUrl.target (url : QUrl) : QString :=
  match url.query with
  | some query => url.path ++ "?" ++ query
  | none => url.path

/-- `method + " " + req.toUtf8() + " " + version + "\r\n"`. -/
def originLine (method : QByteArray) (req : QString) (version : QByteArray) : QByteArray :=
  method ++ [space] ++ toUtf8 req ++ [space] ++ version ++ crlf

def request (t : QtText) (reqData : QByteArray) : Request :=
  let entries := (cutLine reqData).1
  let method := value entries 0
  let address := value entries 1
  let version := value entries 2
  if method ≠ toUtf8 "CONNECT" then
    let url := t.fromEncoded address
    if url.isValid = false then
      .invalid
    else
      .plain url.host (url.port.getD 80) (originLine method url.target version ++ (cutLine reqData).2)
  else
    let host_port_list := split address 58
    .connect (t.fromUtf8 (host_port_list.headD [])) (t.toUShort (host_port_list.getLastD []))

example : toUtf8 "CONNECT" = [67, 79, 78, 78, 69, 67, 84] := by decide

example : cutLine (toUtf8 "GET http://a/ HTTP/1.1\r\nHost: a\r\n\r\n") =
    ([toUtf8 "GET", toUtf8 "http://a/", toUtf8 "HTTP/1.1"], toUtf8 "Host: a\r\n\r\n") := by decide

section Line

theorem find_crlf {line : QByteArray} (unbroken : ¬ crlf <:+: line) (rest : QByteArray) :
    find crlf (line ++ crlf ++ rest) = some line.length := by
  induction line with
  | nil =>
      have here : crlf <+: 13 :: 10 :: rest := ⟨rest, rfl⟩
      have shape : ([] : QByteArray) ++ crlf ++ rest = 13 :: 10 :: rest := rfl
      rw [shape, find, if_pos here]
      rfl
  | cons b line ih =>
      rw [List.infix_cons_iff, not_or] at unbroken
      have notHere : ¬ crlf <+: b :: (line ++ crlf ++ rest) := by
        intro here
        apply unbroken.1
        rw [crlf, List.cons_prefix_cons] at here ⊢
        refine ⟨here.1, ?_⟩
        cases line with
        | nil => simp [List.cons_prefix_cons] at here
        | cons c line => simpa [List.cons_prefix_cons] using here.2
      rw [List.cons_append, List.cons_append, find, if_neg notHere, ih unbroken.2]
      rfl

theorem cutLine_line {line : QByteArray} (unbroken : ¬ crlf <:+: line) (rest : QByteArray) :
    cutLine (line ++ crlf ++ rest) = (split line space, rest) := by
  have found : indexOf (line ++ crlf ++ rest) crlf = line.length := by
    rw [indexOf, find_crlf unbroken rest]
  have cut : left (line ++ crlf ++ rest) line.length = line := by
    rw [left, Int.toNat_natCast, List.append_assoc, List.take_left']
    rfl
  have kept : removeFront (line ++ crlf ++ rest) (line.length + 2) = rest := by
    have len : ((line.length : ℤ) + 2).toNat = (line ++ crlf).length := by
      rw [List.length_append]
      change _ = line.length + 2
      omega
    rw [removeFront, len, List.drop_left']
    rfl
  rw [cutLine, found, cut, kept]

theorem cutLine_of_unbroken {data : QByteArray} (unbroken : ¬ crlf <:+: data) :
    cutLine data = ([[]], data.drop 1) := by
  have missing : indexOf data crlf = -1 := by
    rw [indexOf, find_eq_none_iff.mpr unbroken]
  rw [cutLine, missing]
  rfl

end Line

section Branches

theorem request_eq_plain_iff {t : QtText} {data reqData : QByteArray} {host : QString}
    {port : UInt16} :
    request t data = .plain host port reqData ↔
      value (cutLine data).1 0 ≠ toUtf8 "CONNECT" ∧
      (t.fromEncoded (value (cutLine data).1 1)).isValid = true ∧
      (t.fromEncoded (value (cutLine data).1 1)).host = host ∧
      (t.fromEncoded (value (cutLine data).1 1)).port.getD 80 = port ∧
      originLine (value (cutLine data).1 0) (t.fromEncoded (value (cutLine data).1 1)).target
        (value (cutLine data).1 2) ++ (cutLine data).2 = reqData := by
  simp only [request]
  by_cases plain : value (cutLine data).1 0 ≠ toUtf8 "CONNECT"
  · rw [if_pos plain]
    by_cases valid : (t.fromEncoded (value (cutLine data).1 1)).isValid = true
    · simp [plain, valid]
    · simp [plain, valid]
  · simp [plain]

theorem request_of_unbroken (t : QtText) {data : QByteArray} (unbroken : ¬ crlf <:+: data) :
    request t data = .invalid := by
  simp only [request, cutLine_of_unbroken unbroken]
  have noMethod : value [([] : QByteArray)] 0 ≠ toUtf8 "CONNECT" := by decide
  have noAddress : value [([] : QByteArray)] 1 = [] := by decide
  rw [if_pos noMethod, noAddress, t.isValid_empty]
  rfl

end Branches

section Grammar

/-- A word of a request line: not empty, and without a space and the bytes of a line break. -/
def Word (w : QByteArray) : Prop := w ≠ [] ∧ ∀ b ∈ w, b ≠ space ∧ b ≠ 13 ∧ b ≠ 10

instance (w : QByteArray) : Decidable (Word w) :=
  @instDecidableAnd _ _ _ (List.decidableBAll _ w)

structure RequestLine where
  method : QByteArray
  target : QByteArray
  version : QByteArray
  method_word : Word method
  target_word : Word target
  version_word : Word version

def RequestLine.text (line : RequestLine) : QByteArray :=
  line.method ++ [space] ++ line.target ++ [space] ++ line.version ++ crlf

theorem Word.space_not_mem {w : QByteArray} (word : Word w) : space ∉ w :=
  fun inside => (word.2 space inside).1 rfl

theorem Word.cr_not_mem {w : QByteArray} (word : Word w) : (13 : UInt8) ∉ w :=
  fun inside => (word.2 13 inside).2.1 rfl

theorem append_cons_inj_left {α : Type} {a : α} {xs ys zs ws : List α} (noneX : a ∉ xs)
    (noneZ : a ∉ zs) (same : xs ++ a :: ys = zs ++ a :: ws) : xs = zs ∧ ys = ws := by
  rcases List.append_eq_append_iff.mp same with ⟨rest, rfl, tail⟩ | ⟨rest, rfl, tail⟩
  · cases rest with
    | nil => exact ⟨(List.append_nil xs).symm, (List.cons.inj tail).2⟩
    | cons b rest =>
        have first : a = b := (List.cons.inj tail).1
        subst first
        exact absurd (List.mem_append_right xs List.mem_cons_self) noneZ
  · cases rest with
    | nil => exact ⟨List.append_nil zs, (List.cons.inj tail).2.symm⟩
    | cons b rest =>
        have first : a = b := (List.cons.inj tail).1
        subst first
        exact absurd (List.mem_append_right zs List.mem_cons_self) noneX

/-- The proxy takes a request line apart into its words. -/
theorem cutLine_text (line : RequestLine) (rest : QByteArray) :
    cutLine (line.text ++ rest) = ([line.method, line.target, line.version], rest) := by
  have unbroken : ¬ crlf <:+:
      line.method ++ space :: (line.target ++ space :: line.version) := by
    intro inside
    have cr : (13 : UInt8) ∈ line.method ++ space :: (line.target ++ space :: line.version) :=
      inside.subset List.mem_cons_self
    simp only [List.mem_append, List.mem_cons, line.method_word.cr_not_mem,
      line.target_word.cr_not_mem, line.version_word.cr_not_mem, or_false, false_or] at cr
    exact absurd cr (by decide)
  have shape : line.text ++ rest =
      (line.method ++ space :: (line.target ++ space :: line.version)) ++ crlf ++ rest := by
    simp [RequestLine.text]
  rw [shape, cutLine_line unbroken, split,
    List.splitOn_append_cons_self_of_not_mem line.method_word.space_not_mem,
    List.splitOn_append_cons_self_of_not_mem line.target_word.space_not_mem,
    List.splitOn_eq_singleton line.version_word.space_not_mem]

end Grammar

section PassedOn

private theorem target_cut {target word rest rest' : QByteArray} (noSpace : space ∉ word) :
    target ++ space :: rest = word ++ space :: rest' ↔
      (word = target ∧ rest' = rest) ∨
        ∃ inner, target = word ++ space :: inner ∧ rest' = inner ++ space :: rest := by
  constructor
  · intro same
    rcases List.append_eq_append_iff.mp same with ⟨extra, longer, tail⟩ | ⟨extra, longer, tail⟩
    · cases extra with
      | nil =>
          rw [List.append_nil] at longer
          exact Or.inl ⟨longer, (List.cons.inj tail).2.symm⟩
      | cons b extra =>
          have first : space = b := (List.cons.inj tail).1
          subst first
          exact absurd (longer ▸ List.mem_append_right target List.mem_cons_self) noSpace
    · cases extra with
      | nil =>
          rw [List.append_nil] at longer
          exact Or.inl ⟨longer.symm, (List.cons.inj tail).2⟩
      | cons b extra =>
          obtain ⟨first, others⟩ := List.cons.inj tail
          subst first
          exact Or.inr ⟨extra, longer, others⟩
  · rintro (⟨rfl, rfl⟩ | ⟨inner, rfl, rfl⟩)
    · rfl
    · simp

private theorem version_cut {inner word rest rest' : QByteArray} (noSpace : space ∉ word) :
    inner ++ space :: rest = word ++ crlf ++ rest' ↔
      ∃ more, inner = word ++ crlf ++ more ∧ rest' = more ++ space :: rest := by
  constructor
  · intro same
    have noSpace' : space ∉ word ++ crlf := by
      rw [List.mem_append, not_or]
      exact ⟨noSpace, by decide⟩
    rcases List.append_eq_append_iff.mp same with ⟨extra, longer, tail⟩ | ⟨extra, longer, tail⟩
    · cases extra with
      | nil =>
          rw [List.append_nil] at longer
          exact ⟨[], by rw [List.append_nil, longer], tail.symm⟩
      | cons b extra =>
          have first : space = b := (List.cons.inj tail).1
          subst first
          exact absurd (longer ▸ List.mem_append_right inner List.mem_cons_self) noSpace'
    · exact ⟨extra, longer, tail⟩
  · rintro ⟨more, rfl, rfl⟩
    simp

/-- What the line written for the upstream server can be read as: the line that was meant, or one
that a space and a line break in the path and query cut off before its end. -/
theorem originLine_eq_text_iff {method version : QByteArray} (noSpace : space ∉ method)
    (noCr : (13 : UInt8) ∉ version) (req : QString) (rest : QByteArray) (line : RequestLine)
    (rest' : QByteArray) :
    originLine method req version ++ rest = line.text ++ rest' ↔
      line.method = method ∧
        ((line.target = toUtf8 req ∧ line.version = version ∧ rest' = rest) ∨
          ∃ more, toUtf8 req = line.target ++ [space] ++ line.version ++ crlf ++ more ∧
            rest' = more ++ [space] ++ version ++ crlf ++ rest) := by
  have written : originLine method req version ++ rest =
      method ++ space :: (toUtf8 req ++ space :: (version ++ crlf ++ rest)) := by
    simp [originLine]
  have text : line.text ++ rest' =
      line.method ++ space :: (line.target ++ space :: (line.version ++ crlf ++ rest')) := by
    simp [RequestLine.text]
  have methods : originLine method req version ++ rest = line.text ++ rest' ↔
      line.method = method ∧ toUtf8 req ++ space :: (version ++ crlf ++ rest) =
        line.target ++ space :: (line.version ++ crlf ++ rest') := by
    rw [written, text]
    constructor
    · intro same
      obtain ⟨words, rests⟩ := append_cons_inj_left noSpace line.method_word.space_not_mem same
      exact ⟨words.symm, rests⟩
    · rintro ⟨words, rests⟩
      rw [words, rests]
  have versions : line.version ++ crlf ++ rest' = version ++ crlf ++ rest ↔
      line.version = version ∧ rest' = rest := by
    constructor
    · intro same
      rw [List.append_assoc, List.append_assoc] at same
      obtain ⟨words, rests⟩ := append_cons_inj_left line.version_word.cr_not_mem noCr same
      exact ⟨words, (List.cons.inj rests).2⟩
    · rintro ⟨words, rests⟩
      rw [words, rests]
  rw [methods, target_cut line.target_word.space_not_mem, versions]
  apply and_congr_right
  intro _
  apply or_congr_right
  constructor
  · rintro ⟨inner, broken, early⟩
    obtain ⟨more, rfl, rfl⟩ := (version_cut line.version_word.space_not_mem).mp early.symm
    exact ⟨more, by simp [broken], by simp⟩
  · rintro ⟨more, broken, rfl⟩
    exact ⟨line.version ++ crlf ++ more, by simp [broken], by simp⟩

/-- A request that begins with a request line is passed on as one, with the client's method and
version, the decoded path and query of its URL, and the same headers and body, exactly when the
path and query are a word. Otherwise it begins with no request line, or, where they hold a space, a
second word and a line break, with one that ends there, so that the rest of the path and query is
read as headers. -/
theorem passedOn_iff (t : QtText) (own : RequestLine) (rest : QByteArray) {host : QString}
    {port : UInt16} {reqData : QByteArray}
    (asked : request t (own.text ++ rest) = .plain host port reqData) :
    (Word (toUtf8 (t.fromEncoded own.target).target) ↔
      ∃ line : RequestLine, line.method = own.method ∧
        line.target = toUtf8 (t.fromEncoded own.target).target ∧ line.version = own.version ∧
        reqData = line.text ++ rest) ∧
    ∀ (line : RequestLine) (rest' : QByteArray), reqData = line.text ++ rest' ↔
      line.method = own.method ∧
        ((line.target = toUtf8 (t.fromEncoded own.target).target ∧ line.version = own.version ∧
            rest' = rest) ∨
          ∃ more, toUtf8 (t.fromEncoded own.target).target =
              line.target ++ [space] ++ line.version ++ crlf ++ more ∧
            rest' = more ++ [space] ++ own.version ++ crlf ++ rest) := by
  obtain ⟨-, -, -, -, written⟩ := request_eq_plain_iff.mp asked
  rw [cutLine_text] at written
  subst written
  have readings := originLine_eq_text_iff own.method_word.space_not_mem own.version_word.cr_not_mem
    (t.fromEncoded own.target).target rest
  refine ⟨⟨fun word => ?_, fun ⟨line, _, target, _⟩ => target ▸ line.target_word⟩, readings⟩
  let line : RequestLine := ⟨own.method, _, own.version, own.method_word, word, own.version_word⟩
  exact ⟨line, rfl, rfl, rfl, (readings line rest).mpr ⟨rfl, Or.inl ⟨rfl, rfl, rfl⟩⟩⟩

/-- Qt's conversions of ASCII texts, and of one URL. -/
def QtText.ascii (address : QByteArray) (url : QUrl) : QtText where
  fromEncoded data :=
    if data = address ∧ data ≠ [] then url
    else { isValid := false, host := "", port := none, path := "", query := none }
  fromUtf8 data := String.ofList (data.map fun b => Char.ofNat b.toNat)
  toUShort data := UInt16.ofNat (data.foldl (fun n b => 10 * n + (b.toNat - 48)) 0)
  isValid_empty := by simp

/-- The URL `http://a/%20X%0D%0AY`, whose path holds a space, a second word and a line break. -/
def brokenUrl : QtText :=
  .ascii (toUtf8 "http://a/%20X%0D%0AY")
    { isValid := true, host := "a", port := none, path := "/ X\r\nY", query := none }

def brokenLine : RequestLine :=
  ⟨toUtf8 "GET", toUtf8 "http://a/%20X%0D%0AY", toUtf8 "HTTP/1.1", by decide, by decide, by decide⟩

/-- A request for it is read as one for `/`, with a header that the client did not send. -/
theorem passedOn_iff_brokenUrl :
    let reqData := toUtf8 "GET / X\r\nY HTTP/1.1\r\n\r\n"
    (¬ ∃ line : RequestLine, line.method = brokenLine.method ∧
        line.target = toUtf8 (brokenUrl.fromEncoded brokenLine.target).target ∧
        line.version = brokenLine.version ∧ reqData = line.text ++ crlf) ∧
      ∃ line : RequestLine, line.target = toUtf8 "/" ∧
        reqData = line.text ++ toUtf8 "Y HTTP/1.1\r\n\r\n" := by
  intro reqData
  have asked : request brokenUrl (brokenLine.text ++ crlf) = .plain "a" 80 reqData := by decide
  obtain ⟨meant, readings⟩ := passedOn_iff brokenUrl brokenLine crlf asked
  have noWord : ¬ Word (toUtf8 (brokenUrl.fromEncoded brokenLine.target).target) := by decide
  refine ⟨mt meant.mpr noWord, ?_⟩
  let line : RequestLine :=
    ⟨toUtf8 "GET", toUtf8 "/", toUtf8 "X", by decide, by decide, by decide⟩
  exact ⟨line, rfl, (readings line _).mpr ⟨rfl, Or.inr ⟨toUtf8 "Y", by decide, by decide⟩⟩⟩

end PassedOn

end QvPlugin.Socksify
