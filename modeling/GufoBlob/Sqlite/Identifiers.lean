import GufoBlob.Sqlite.Blob
import GufoBlob.Text.Sql

/-!
# Names in statements

The names of the table and of its columns are put into the texts of the statements as they are.
`clean_db_item` looks at their characters only.

* `tokens_statements` — whatever names pass, the texts are cut into the tokens of the statement with
  each name as one word.
* `checked_iff` — names that pass can stand in the statements exactly when none is a keyword and the
  columns differ.
* `not_checked_keyword` — a table with the name `select`, and columns `k` and `K`.
-/

namespace GufoBlob.SQLiteBlob

open Text Sql

/-! ## Statements -/

/-- The places where a name stands. -/
inductive Slot where
  | table
  | key
  | value
  deriving DecidableEq

/-- A piece of a statement: a fixed one, or a name. -/
inductive Piece where
  | fixed (x : Lexeme)
  | name (slot : Slot)

namespace Piece

/-- The piece in a statement with certain names. -/
def lexeme (names : Slot → Str) : Piece → Lexeme
  | .fixed x => x
  | .name slot => .token (.word (names slot))

/-- A line feed and the indentation after it. -/
def line (indent : Nat) : Piece := .fixed (.blank ('\n' :: List.replicate indent ' '))

def space : Piece := .fixed (.blank [' '])

def word (w : String) : Piece := .fixed (.token (.word w.toList))

def symbol (s : Symbol) : Piece := .fixed (.token (.symbol s))

def parameter : Piece := .fixed (.token .parameter)

def one : Piece := .fixed (.token (.number ['1']))

/-- Words with spaces between them. -/
def phrase : List String → List Piece
  | [] => []
  | [w] => [word w]
  | w :: ws => word w :: space :: phrase ws

end Piece

open Piece

/-- `CREATE TABLE`. -/
def createPieces : List Piece :=
  line 8 :: phrase ["CREATE", "TABLE", "IF", "NOT", "EXISTS"] ++
    [space, .name .table, space, symbol .lparen, line 12, .name .key, space] ++
    phrase ["TEXT", "PRIMARY", "KEY"] ++ [symbol .comma, line 12, .name .value, space] ++
    phrase ["BLOB", "NOT", "NULL"] ++ [line 8, symbol .rparen, space] ++
    phrase ["WITHOUT", "ROWID"] ++ [line 8]

/-- The statement of `put`. -/
def putPieces : List Piece :=
  line 8 :: phrase ["INSERT", "INTO"] ++
    [space, .name .table, space, symbol .lparen, .name .key, symbol .comma, space, .name .value,
      symbol .rparen, line 8, word "VALUES", space, symbol .lparen, parameter, symbol .comma, space,
      parameter, symbol .rparen, line 8] ++
    phrase ["ON", "CONFLICT"] ++ [symbol .lparen, .name .key, symbol .rparen, space] ++
    phrase ["DO", "UPDATE", "SET"] ++
    [line 12, .name .value, symbol .eq, word "excluded", symbol .dot, .name .value, line 8]

/-- `WHERE key = ?`. -/
def wherePieces : List Piece :=
  [line 8, word "WHERE", space, .name .key, symbol .eq, parameter, line 8]

/-- The statement of `get`. -/
def getPieces : List Piece :=
  [line 8, word "SELECT", space, .name .value, line 8, word "FROM", space, .name .table] ++
    wherePieces

/-- The statement of `delete`. -/
def deletePieces : List Piece :=
  line 8 :: phrase ["DELETE", "FROM"] ++ [space, .name .table] ++ wherePieces

/-- The statement of `exists`. -/
def existsPieces : List Piece :=
  [line 8, word "SELECT", space, one, line 8, word "FROM", space, .name .table] ++ wherePieces ++
    [word "LIMIT", space, one, line 8]

/-- The statement of `scan`. -/
def scanPieces : List Piece :=
  [line 8, word "SELECT", space, .name .key, line 8, word "FROM", space, .name .table, line 8,
    word "WHERE", space, .name .key, space, symbol .ge, space, parameter, line 10, word "AND", space,
    .name .key, space, symbol .lt, space, parameter, line 8] ++ phrase ["ORDER", "BY"] ++
    [space, .name .key, line 8]

/-- The names of a blob. -/
def nameOf (b : SQLiteBlob) : Slot → Str
  | .table => b.table.1
  | .key => b.keyCol.1
  | .value => b.valueCol.1

/-- The text of a statement with certain names. -/
def written (names : Slot → Str) (ps : List Piece) : Str := render (ps.map (Piece.lexeme names))

/-- The statements of a blob, and what they are meant to be. -/
def statements (b : SQLiteBlob) : List (Str × List Piece) :=
  b.iterInitSql.map (·, createPieces) ++
    [(b.putSql, putPieces), (b.getSql, getPieces), (b.deleteSql, deletePieces),
      (b.existsSql, existsPieces), (b.scanSql, scanPieces)]

def templates : List (List Piece) :=
  [createPieces, putPieces, getPieces, deletePieces, existsPieces, scanPieces]

/-! ### The texts -/

section Written

variable (b : SQLiteBlob)

theorem iterInitSql_written : b.iterInitSql = [written b.nameOf createPieces] := by
  unfold iterInitSql
  simp only [List.append_assoc]
  rfl

theorem putSql_written : b.putSql = written b.nameOf putPieces := by
  unfold putSql
  simp only [List.append_assoc]
  rfl

theorem getSql_written : b.getSql = written b.nameOf getPieces := by
  unfold getSql
  simp only [List.append_assoc]
  rfl

theorem deleteSql_written : b.deleteSql = written b.nameOf deletePieces := by
  unfold deleteSql
  simp only [List.append_assoc]
  rfl

theorem existsSql_written : b.existsSql = written b.nameOf existsPieces := by
  unfold existsSql
  simp only [List.append_assoc]
  rfl

theorem scanSql_written : b.scanSql = written b.nameOf scanPieces := by
  unfold scanSql
  simp only [List.append_assoc]
  rfl

/-- The statements, each written with the names of the blob. -/
theorem statements_eq :
    b.statements = templates.map fun ps => (written b.nameOf ps, ps) := by
  simp only [statements, iterInitSql_written, putSql_written, getSql_written, deleteSql_written,
    existsSql_written, scanSql_written]
  rfl

end Written

/-! ### Tokens -/

section Spelled

variable {names : Slot → Str}

theorem valid_lexeme (hnames : ∀ slot, plainWord (names slot) = true) (p : Piece) :
    (p.lexeme names).valid = (p.lexeme fun _ => ['_']).valid := by
  cases p with
  | fixed x => rfl
  | name slot => exact hnames slot

theorem endsBefore_lexeme (p : Piece) (c : Char) :
    (p.lexeme names).endsBefore c = (p.lexeme fun _ => ['_']).endsBefore c := by
  cases p <;> rfl

/-- What a text begins with is the same for a piece before it, whatever the names are. -/
theorem head_written (hnames : ∀ slot, plainWord (names slot) = true) (x : Lexeme)
    (ps : List Piece) :
    (written names ps).head?.all (x.endsBefore ·) =
      (written (fun _ => ['_']) ps).head?.all (x.endsBefore ·) := by
  induction ps with
  | nil => rfl
  | cons p ps ih =>
      cases p with
      | fixed y =>
          show (y.text ++ written names ps).head?.all _ =
            (y.text ++ written (fun _ => ['_']) ps).head?.all _
          cases y.text with
          -- then the text begins with the next piece
          | nil => exact ih
          | cons c cs => rfl
      -- a name and `_` both begin a word, and a piece before them cannot tell these apart
      | name slot =>
          obtain ⟨c, cs, hname, hc⟩ : ∃ c cs, names slot = c :: cs ∧ isWordStart c = true := by
            have hplain := hnames slot
            cases hslot : names slot with
            | nil => rw [hslot] at hplain; cases hplain
            | cons c cs =>
                rw [hslot, plainWord, Bool.and_eq_true] at hplain
                exact ⟨c, cs, rfl, hplain.1⟩
          show (names slot ++ written names ps).head?.all _ = x.endsBefore '_'
          rw [hname]
          exact x.endsBefore_of_isWordStart hc (by decide)

/-- Any names do as well as `_`. -/
theorem spelled_names (hnames : ∀ slot, plainWord (names slot) = true) (ps : List Piece) :
    spelled (ps.map (lexeme names)) = spelled (ps.map (lexeme fun _ => ['_'])) := by
  induction ps with
  | nil => rfl
  | cons p ps ih =>
      have hends : (fun c => (p.lexeme names).endsBefore c) =
          fun c => (p.lexeme fun _ => ['_']).endsBefore c := funext (endsBefore_lexeme p)
      have hhead := head_written hnames (p.lexeme fun _ => ['_']) ps
      rw [List.map_cons, List.map_cons, spelled, spelled, ih, valid_lexeme hnames p, hends]
      rw [written, written] at hhead
      rw [hhead]

end Spelled

theorem spelled_templates :
    templates.all (fun ps => spelled (ps.map (lexeme fun _ => ['_']))) = true := by decide

theorem plainWord_nameOf (b : SQLiteBlob) (slot : Slot) : plainWord (b.nameOf slot) = true := by
  cases slot with
  | table => exact b.table.2
  | key => exact b.keyCol.2
  | value => exact b.valueCol.2

/-- Every statement is cut into its own tokens, each name being one word. -/
theorem tokens_statements (L : Lexer) (b : SQLiteBlob) {s : Str × List Piece}
    (hs : s ∈ b.statements) :
    L.tokens s.1 = (s.2.map (lexeme b.nameOf)).flatMap Lexeme.tokens := by
  rw [statements_eq] at hs
  obtain ⟨ps, hps, rfl⟩ := List.mem_map.mp hs
  apply L.tokens_render
  rw [spelled_names (plainWord_nameOf b)]
  exact List.all_eq_true.mp spelled_templates ps hps

/-! ## What passes -/

/-- SQLite, as far as the texts of the statements go: its tokenizer, and the words that are no plain
names in a place, be it that they are keywords or that they mean something else there. -/
structure Engine extends Lexer where
  reserved : Slot → Str → Bool

/-- Every statement is read as it is meant. -/
structure Intended (E : Engine) (b : SQLiteBlob) : Prop where
  tokens : ∀ s ∈ b.statements, E.tokens s.1 = (s.2.map (lexeme b.nameOf)).flatMap Lexeme.tokens
  names : ∀ slot, E.reserved slot (b.nameOf slot) = false
  columns : b.keyCol.1.map Char.toLower ≠ b.valueCol.1.map Char.toLower

/-- The constructor lets these names pass only if every statement is read as it is meant, and raises
`BlobError` otherwise. -/
def Checked (E : Engine) (table keyCol valueCol : Str) : Prop :=
  ∀ path busyTimeout,
    (∀ b, init path table keyCol valueCol busyTimeout = .ok b → Intended E b) ∧
      ∀ e, init path table keyCol valueCol busyTimeout = .error e → ∃ msg, e = .blobError msg

section Checked

variable {path table keyCol valueCol : Str} {busyTimeout : Int} {b : SQLiteBlob} {e : PyExc}

theorem cleanDbItem_ok {name : Str} (h : rxDbItem name = true) : cleanDbItem name = .ok ⟨name, h⟩ :=
  dif_pos h

theorem cleanDbItem_error {name : Str} (h : rxDbItem name ≠ true) :
    cleanDbItem name = .error (.blobError ("Invalid database identifier: " ++ reprText name)) :=
  dif_neg h

/-- A blob has the names that it was made with. -/
theorem init_ok (htable : rxDbItem table = true) (hkey : rxDbItem keyCol = true)
    (hvalue : rxDbItem valueCol = true) :
    init path table keyCol valueCol busyTimeout =
      .ok ⟨path, ⟨table, htable⟩, ⟨keyCol, hkey⟩, ⟨valueCol, hvalue⟩, busyTimeout⟩ := by
  unfold init
  rw [cleanDbItem_ok htable, cleanDbItem_ok hkey, cleanDbItem_ok hvalue]
  rfl

/-- Any other names are refused. -/
theorem init_error
    (h : ¬ (rxDbItem table = true ∧ rxDbItem keyCol = true ∧ rxDbItem valueCol = true)) :
    ∃ msg, init path table keyCol valueCol busyTimeout = .error (.blobError msg) := by
  unfold init
  by_cases htable : rxDbItem table = true
  · rw [cleanDbItem_ok htable]
    by_cases hkey : rxDbItem keyCol = true
    · rw [cleanDbItem_ok hkey]
      have hvalue : rxDbItem valueCol ≠ true := fun hvalue => h ⟨htable, hkey, hvalue⟩
      rw [cleanDbItem_error hvalue]
      exact ⟨_, rfl⟩
    · rw [cleanDbItem_error hkey]
      exact ⟨_, rfl⟩
  · rw [cleanDbItem_error htable]
    exact ⟨_, rfl⟩

theorem names_of_checked {E : Engine} (h : Checked E table keyCol valueCol)
    (hpass : rxDbItem table = true ∧ rxDbItem keyCol = true ∧ rxDbItem valueCol = true) :
    (E.reserved .table table = false ∧ E.reserved .key keyCol = false ∧
        E.reserved .value valueCol = false) ∧
      keyCol.map Char.toLower ≠ valueCol.map Char.toLower := by
  obtain ⟨htable, hkey, hvalue⟩ := hpass
  have hintended := (h [] 0).1 _ (init_ok htable hkey hvalue)
  exact ⟨⟨hintended.names .table, hintended.names .key, hintended.names .value⟩,
    hintended.columns⟩

theorem checked_of_names {E : Engine}
    (h : rxDbItem table = true ∧ rxDbItem keyCol = true ∧ rxDbItem valueCol = true →
      (E.reserved .table table = false ∧ E.reserved .key keyCol = false ∧
          E.reserved .value valueCol = false) ∧
        keyCol.map Char.toLower ≠ valueCol.map Char.toLower) :
    Checked E table keyCol valueCol := by
  intro path busyTimeout
  by_cases hpass : rxDbItem table = true ∧ rxDbItem keyCol = true ∧ rxDbItem valueCol = true
  · obtain ⟨⟨hfreeTable, hfreeKey, hfreeValue⟩, hcolumns⟩ := h hpass
    obtain ⟨htable, hkey, hvalue⟩ := hpass
    rw [init_ok htable hkey hvalue]
    constructor
    · rintro b ⟨⟩
      refine ⟨fun s hs => tokens_statements E.toLexer _ hs, fun slot => ?_, hcolumns⟩
      cases slot with
      | table => exact hfreeTable
      | key => exact hfreeKey
      | value => exact hfreeValue
    · rintro e ⟨⟩
  · obtain ⟨msg, hmsg⟩ : ∃ msg, init path table keyCol valueCol busyTimeout =
        .error (.blobError msg) := init_error hpass
    rw [hmsg]
    constructor
    · rintro b ⟨⟩
    · rintro e ⟨⟩
      exact ⟨msg, rfl⟩

end Checked

/-- Names that pass are checked exactly when none is reserved and the columns differ. -/
theorem checked_iff (E : Engine) (table keyCol valueCol : Str) :
    Checked E table keyCol valueCol ↔
      (rxDbItem table = true ∧ rxDbItem keyCol = true ∧ rxDbItem valueCol = true →
        (E.reserved .table table = false ∧ E.reserved .key keyCol = false ∧
            E.reserved .value valueCol = false) ∧
          keyCol.map Char.toLower ≠ valueCol.map Char.toLower) :=
  ⟨names_of_checked, checked_of_names⟩

/-! ### An engine -/

/-- The keywords that are no names anywhere. -/
def keywords : List Str :=
  ["add", "all", "alter", "and", "as", "autoincrement", "between", "case", "check", "collate",
    "commit", "constraint", "create", "default", "deferrable", "delete", "distinct", "drop", "else",
    "escape", "except", "exists", "foreign", "from", "group", "having", "in", "index", "insert",
    "intersect", "into", "is", "isnull", "join", "limit", "not", "nothing", "notnull", "null", "on",
    "or", "order", "primary", "references", "returning", "select", "set", "table", "then", "to",
    "transaction", "union", "unique", "update", "using", "values", "when", "where"].map String.toList

/-- The words that mean something else in a place. -/
def meanings : Slot → List Str
  -- in an upsert `excluded` is the row that was not inserted
  | .table => ["excluded", "if"].map String.toList
  | .key | .value =>
      ["cast", "raise", "current_date", "current_time", "current_timestamp"].map String.toList

def plainEngine : Engine where
  toLexer := plainLexer
  reserved slot w :=
    let w := w.map Char.toLower
    (keywords ++ meanings slot).contains w || (slot = .table && "sqlite_".toList.isPrefixOf w)

/-- The default names. -/
example : Checked plainEngine "blobs".toList "k".toList "v".toList :=
  checked_of_names fun _ => by decide

/-- A keyword passes, and so do two columns that differ in letter case only. -/
theorem not_checked_keyword :
    ¬ Checked plainEngine "select".toList "k".toList "v".toList ∧
      ¬ Checked plainEngine "blobs".toList "k".toList "K".toList := by
  constructor
  · intro h
    have hfree := (names_of_checked h (by decide)).1.1
    exact absurd hfree (by decide)
  · intro h
    have hcolumns := (names_of_checked h (by decide)).2
    exact hcolumns (by decide)

end GufoBlob.SQLiteBlob
