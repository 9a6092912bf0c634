import Mathlib

set_option autoImplicit false

/-!
# The parameters of SQL statements

The forms of `SELECT`, `INSERT`, `UPDATE` and `DELETE` that work on one table, read
from their text. A statement's parameters are its question marks, counted from the
left; each belongs to the column that it is compared with or stored in. Keywords are
those in capitals, and names are not checked against them.
-/
namespace Ceasy.Sql

def bytes (text : String) : List UInt8 := text.toList.map Char.toUInt8

def code (c : Char) : UInt8 := c.toUInt8

inductive Token where
  | word (text : List UInt8)
  | mark (c : UInt8)
deriving DecidableEq, Repr

def isWord (c : UInt8) : Bool :=
  (code 'a' ≤ c && c ≤ code 'z') || (code 'A' ≤ c && c ≤ code 'Z') ||
    (code '0' ≤ c && c ≤ code '9') || c == code '_'

def ended (word : List UInt8) : List Token := if word = [] then [] else [.word word]

def tokensFrom : List UInt8 → List UInt8 → List Token
  | word, [] => ended word
  | word, c :: rest =>
    if isWord c then tokensFrom (word ++ [c]) rest
    else ended word ++ ((if c = code ' ' then [] else [.mark c]) ++ tokensFrom [] rest)

def tokens (text : List UInt8) : List Token := tokensFrom [] text

variable {text rest word : List UInt8} {c : UInt8}

theorem tokensFrom_stop (h : isWord c = false) :
    tokensFrom word (c :: rest) = ended word ++ tokens (c :: rest) := by
  rw [tokens, tokensFrom, h, tokensFrom, h]
  rfl

theorem tokensFrom_append_stop (h : isWord c = false) :
    tokensFrom word (text ++ c :: rest) = tokensFrom word text ++ tokens (c :: rest) := by
  induction text generalizing word with
  | nil => exact tokensFrom_stop h
  | cons d text ih =>
    rw [List.cons_append, tokensFrom, tokensFrom]
    split_ifs
    · exact ih
    · rw [ih, List.append_assoc, List.append_assoc]
    · rw [ih, List.append_assoc, List.append_assoc]

theorem tokens_append_stop (h : isWord c = false) :
    tokens (text ++ c :: rest) = tokens text ++ tokens (c :: rest) :=
  tokensFrom_append_stop h

/-- What follows a byte that is no part of a word is read by itself. -/
theorem tokensFrom_append (h : text.getLast?.any isWord = false) (hnone : text = [] → word = []) :
    tokensFrom word (text ++ rest) = tokensFrom word text ++ tokens rest := by
  induction text generalizing word with
  | nil =>
    rw [hnone rfl]
    rfl
  | cons d text ih =>
    have hlast : text.getLast?.any isWord = false := by
      cases text with
      | nil => rfl
      | cons e text => rwa [List.getLast?_cons_cons] at h
    rw [List.cons_append, tokensFrom, tokensFrom]
    split_ifs with hword
    · apply ih hlast
      rintro rfl
      rw [List.getLast?_singleton, Option.any_some, hword] at h
      cases h
    · rw [ih hlast fun _ => rfl, List.append_assoc, List.append_assoc]
    · rw [ih hlast fun _ => rfl, List.append_assoc, List.append_assoc]

theorem tokens_append (h : text.getLast?.any isWord = false) :
    tokens (text ++ rest) = tokens text ++ tokens rest :=
  tokensFrom_append h fun _ => rfl

theorem tokensFrom_word (h : ∀ c ∈ text, isWord c = true) :
    tokensFrom word text = ended (word ++ text) := by
  induction text generalizing word with
  | nil => rw [tokensFrom, List.append_nil]
  | cons c text ih =>
    rw [tokensFrom, if_pos (h c List.mem_cons_self), ih fun d hd => h d (List.mem_cons_of_mem c hd),
      List.append_assoc, List.singleton_append]

theorem tokens_word (h : ∀ c ∈ text, isWord c = true) (hne : text ≠ []) :
    tokens text = [.word text] := by
  rw [tokens, tokensFrom_word h, List.nil_append, ended, if_neg hne]

theorem tokens_comma (text rest : List UInt8) :
    tokens (text ++ bytes ", " ++ rest) = tokens text ++ ([.mark (code ',')] ++ tokens rest) := by
  have hcomma : tokens (bytes ", " ++ rest) = [.mark (code ',')] ++ tokens rest :=
    tokens_append (by decide)
  rw [List.append_assoc, ← hcomma]
  exact tokens_append_stop (by decide)

theorem tokens_intercalate (pieces : List (List UInt8)) :
    tokens ((bytes ", ").intercalate pieces) = [Token.mark (code ',')].intercalate (pieces.map tokens) := by
  induction pieces with
  | nil => rfl
  | cons piece pieces ih =>
    cases pieces with
    | nil => rw [List.intercalate_singleton, List.map_singleton, List.intercalate_singleton]
    | cons next pieces =>
      rw [List.intercalate_cons_cons, tokens_comma, ih, List.map_cons, List.map_cons, List.map_cons,
        List.intercalate_cons_cons, List.append_assoc]

/-- What is stored in a column: a parameter, or what a word stands for. -/
inductive Operand where
  | parameter
  | word (text : List UInt8)
deriving DecidableEq, Repr

inductive Clause where
  | all
  | matching (column : List UInt8)
  | ordered (column : List UInt8)
deriving DecidableEq, Repr

inductive Statement where
  | select (columns : List (List UInt8)) (table : List UInt8) (clause : Clause)
  | insert (table : List UInt8) (columns : List (List UInt8)) (values : List Operand)
  | insertDefault (table : List UInt8)
  | update (table : List UInt8) (assignments : List (List UInt8 × Operand)) (clause : Clause)
  | delete (table : List UInt8) (clause : Clause)
deriving DecidableEq, Repr

def columnItem : List Token → Option (List UInt8)
  | [.word column] => some column
  | _ => none

def operandItem : List Token → Option Operand
  | [.word text] => some (.word text)
  | [.mark c] => if c = code '?' then some .parameter else none
  | _ => none

def assignmentItem : List Token → Option (List UInt8 × Operand)
  | .word column :: .mark c :: operand =>
    if c = code '=' then (operandItem operand).map fun operand => (column, operand) else none
  | _ => none

def items {α : Type} (item : List Token → Option α) (tokens : List Token) : Option (List α) :=
  (tokens.splitOn (.mark (code ','))).mapM item

def clause : List Token → Option Clause
  | [] => some .all
  | [.word first, .word column, .mark equals, .mark parameter] =>
    if first = bytes "WHERE" ∧ equals = code '=' ∧ parameter = code '?' then some (.matching column)
    else none
  | [.word first, .word second, .word column] =>
    if first = bytes "ORDER" ∧ second = bytes "BY" then some (.ordered column) else none
  | _ => none

/-- The tokens up to one of them, and those from it on. -/
def upTo (stop : Token) (tokens : List Token) : List Token × List Token :=
  (tokens.takeWhile (· != stop), tokens.dropWhile (· != stop))

def select (tokens : List Token) : Option Statement :=
  match upTo (.word (bytes "FROM")) tokens with
  | (columns, _ :: .word table :: rest) =>
    (items columnItem columns).bind fun columns => (clause rest).map fun clause =>
      .select columns table clause
  | _ => none

/-- As many values as columns, between parentheses. -/
def insertValues (table : List UInt8) (columns : List Token) : List Token → Option Statement
  | _ :: .word values :: .mark opening :: rest =>
    if values = bytes "VALUES" ∧ opening = code '(' then
      match upTo (.mark (code ')')) rest with
      | (operands, [_]) =>
        (items columnItem columns).bind fun columns => (items operandItem operands).bind fun operands =>
          if columns.length = operands.length then some (.insert table columns operands) else none
      | _ => none
    else none
  | _ => none

def insert : List Token → Option Statement
  | [.word into, .word table, .word first, .word second] =>
    if into = bytes "INTO" ∧ first = bytes "DEFAULT" ∧ second = bytes "VALUES" then
      some (.insertDefault table)
    else none
  | .word into :: .word table :: .mark opening :: rest =>
    if into = bytes "INTO" ∧ opening = code '(' then
      insertValues table (upTo (.mark (code ')')) rest).1 (upTo (.mark (code ')')) rest).2
    else none
  | _ => none

def update : List Token → Option Statement
  | .word table :: .word set :: rest =>
    if set = bytes "SET" then
      (items assignmentItem (upTo (.word (bytes "WHERE")) rest).1).bind fun assignments =>
        (clause (upTo (.word (bytes "WHERE")) rest).2).map fun clause =>
          .update table assignments clause
    else none
  | _ => none

def delete : List Token → Option Statement
  | .word first :: .word table :: rest =>
    if first = bytes "FROM" then (clause rest).map fun clause => .delete table clause else none
  | _ => none

def statement (text : List UInt8) : Option Statement :=
  match tokens text with
  | .word verb :: rest =>
    if verb = bytes "SELECT" then select rest
    else if verb = bytes "INSERT" then insert rest
    else if verb = bytes "UPDATE" then update rest
    else if verb = bytes "DELETE" then delete rest
    else none
  | _ => none

def Clause.parameters : Clause → List (List UInt8)
  | .matching column => [column]
  | _ => []

def parameterColumns : List (List UInt8 × Operand) → List (List UInt8)
  | [] => []
  | (column, .parameter) :: rest => column :: parameterColumns rest
  | (_, .word _) :: rest => parameterColumns rest

/-- The column of each parameter, in the order in which they are counted. -/
def Statement.parameters : Statement → List (List UInt8)
  | .select _ _ clause => clause.parameters
  | .insert _ columns values => parameterColumns (columns.zip values)
  | .insertDefault _ => []
  | .update _ assignments clause => parameterColumns assignments ++ clause.parameters
  | .delete _ clause => clause.parameters

def marks (tokens : List Token) : ℕ := tokens.count (.mark (code '?'))

theorem mem_intercalate {sep t : Token} {chunks : List (List Token)}
    (h : t ∈ [sep].intercalate chunks) : t = sep ∨ ∃ chunk ∈ chunks, t ∈ chunk := by
  induction chunks with
  | nil => cases h
  | cons chunk chunks ih =>
    cases chunks with
    | nil =>
      rw [List.intercalate_singleton] at h
      exact .inr ⟨chunk, List.mem_cons_self, h⟩
    | cons next chunks =>
      rw [List.intercalate_cons_cons, List.append_assoc, List.mem_append, List.mem_append,
        List.mem_singleton] at h
      rcases h with hfirst | hsep | hrest
      · exact .inr ⟨chunk, List.mem_cons_self, hfirst⟩
      · exact .inl hsep
      · rcases ih hrest with hsep | ⟨found, hfound, ht⟩
        · exact .inl hsep
        · exact .inr ⟨found, List.mem_cons_of_mem chunk hfound, ht⟩

theorem upTo_written {stop : Token} {before rest : List Token} (h : stop ∉ before) :
    upTo stop (before ++ stop :: rest) = (before, stop :: rest) := by
  have hbefore : ∀ t ∈ before, (t != stop) = true := by
    intro t ht
    rw [bne_iff_ne]
    rintro rfl
    exact h ht
  rw [upTo, List.takeWhile_append_of_pos hbefore, List.dropWhile_append_of_pos hbefore,
    List.takeWhile_cons_of_neg (by simp), List.dropWhile_cons_of_neg (by simp), List.append_nil]

theorem mapM_map {α β γ : Type} {item : β → Option γ} {write : α → β} {read : α → γ} {xs : List α}
    (h : ∀ x ∈ xs, item (write x) = some (read x)) : (xs.map write).mapM item = some (xs.map read) := by
  induction xs with
  | nil => rfl
  | cons x xs ih =>
    rw [List.map_cons, List.mapM_cons, h x List.mem_cons_self,
      ih fun y hy => h y (List.mem_cons_of_mem x hy)]
    rfl

theorem items_written {α β : Type} {item : List Token → Option β} {write : α → List Token}
    {read : α → β} {xs : List α} (hne : xs ≠ []) (hitem : ∀ x ∈ xs, item (write x) = some (read x))
    (hcomma : ∀ x ∈ xs, .mark (code ',') ∉ write x) :
    items item ([.mark (code ',')].intercalate (xs.map write)) = some (xs.map read) := by
  have hchunks : ∀ chunk ∈ xs.map write, Token.mark (code ',') ∉ chunk := by
    intro chunk hchunk
    obtain ⟨x, hx, rfl⟩ := List.mem_map.mp hchunk
    exact hcomma x hx
  rw [items, List.splitOn_intercalate _ hchunks (by simpa using hne)]
  exact mapM_map hitem

def columnTokens (columns : List (List UInt8)) : List Token :=
  [.mark (code ',')].intercalate (columns.map fun column => [.word column])

theorem columnTokens_items {columns : List (List UInt8)} (hne : columns ≠ []) :
    items columnItem (columnTokens columns) = some columns := by
  have hread := @items_written _ _ columnItem (fun column => [.word column]) id columns hne
    (fun _ _ => rfl) (fun _ _ => by simp)
  rwa [List.map_id] at hread

theorem word_not_mem_columnTokens {columns : List (List UInt8)} {word : List UInt8}
    (h : word ∉ columns) : Token.word word ∉ columnTokens columns := by
  intro hmem
  rcases mem_intercalate hmem with hsep | ⟨chunk, hchunk, ht⟩
  · cases hsep
  · obtain ⟨column, hcolumn, rfl⟩ := List.mem_map.mp hchunk
    cases List.mem_singleton.mp ht
    exact h hcolumn

theorem mark_not_mem_columnTokens (columns : List (List UInt8)) {c : UInt8} (h : c ≠ code ',') :
    Token.mark c ∉ columnTokens columns := by
  intro hmem
  rcases mem_intercalate hmem with hsep | ⟨chunk, hchunk, ht⟩
  · cases hsep
    exact h rfl
  · obtain ⟨column, hcolumn, rfl⟩ := List.mem_map.mp hchunk
    cases List.mem_singleton.mp ht

theorem statement_select {text table : List UInt8} {columns : List (List UInt8)} {rest : List Token}
    {rows : Clause} (htokens : tokens text = .word (bytes "SELECT") ::
      (columnTokens columns ++ .word (bytes "FROM") :: .word table :: rest))
    (hne : columns ≠ []) (hfrom : bytes "FROM" ∉ columns) (hrows : clause rest = some rows) :
    statement text = some (.select columns table rows) := by
  rw [statement, htokens]
  dsimp only
  rw [if_pos rfl, select, upTo_written (word_not_mem_columnTokens hfrom)]
  dsimp only
  rw [columnTokens_items hne, Option.bind_some, hrows, Option.map_some]

def parameterTokens (count : ℕ) : List Token :=
  [.mark (code ',')].intercalate ((List.range count).map fun _ => [.mark (code '?')])

theorem parameterTokens_items {count : ℕ} (hne : count ≠ 0) :
    items operandItem (parameterTokens count) = some (List.replicate count .parameter) := by
  have hread := @items_written ℕ _ operandItem (fun _ => [.mark (code '?')])
    (fun _ => Operand.parameter) (List.range count) (by simpa using hne) (fun _ _ => rfl)
    (fun _ _ => by simp; decide)
  have hreplicate : (List.range count).map (fun _ => Operand.parameter) =
      List.replicate count .parameter := by simp
  rw [← hreplicate]
  exact hread

theorem mark_not_mem_parameterTokens (count : ℕ) {c : UInt8} (hcomma : c ≠ code ',')
    (hmark : c ≠ code '?') : Token.mark c ∉ parameterTokens count := by
  intro hmem
  rcases mem_intercalate hmem with hsep | ⟨chunk, hchunk, ht⟩
  · cases hsep
    exact hcomma rfl
  · obtain ⟨index, hindex, rfl⟩ := List.mem_map.mp hchunk
    cases List.mem_singleton.mp ht
    exact hmark rfl

theorem statement_insert {text table : List UInt8} {columns : List (List UInt8)}
    (htokens : tokens text = .word (bytes "INSERT") :: .word (bytes "INTO") :: .word table ::
      .mark (code '(') :: (columnTokens columns ++ .mark (code ')') :: .word (bytes "VALUES") ::
        .mark (code '(') :: (parameterTokens columns.length ++ [.mark (code ')')])))
    (hne : columns ≠ []) :
    statement text =
      some (.insert table columns (List.replicate columns.length .parameter)) := by
  have hlength : columns.length ≠ 0 := fun h => hne (List.length_eq_zero_iff.mp h)
  rw [statement, htokens]
  dsimp only
  rw [if_neg (by decide), if_pos rfl, insert]
  rw [if_pos ⟨rfl, rfl⟩, upTo_written (mark_not_mem_columnTokens columns (by decide)), insertValues,
    if_pos ⟨rfl, rfl⟩, upTo_written (mark_not_mem_parameterTokens _ (by decide) (by decide))]
  dsimp only
  rw [columnTokens_items hne, Option.bind_some, parameterTokens_items hlength, Option.bind_some,
    if_pos List.length_replicate.symm]

def operandToken : Operand → Token
  | .parameter => .mark (code '?')
  | .word text => .word text

def assignmentTokens (assignments : List (List UInt8 × Operand)) : List Token :=
  [.mark (code ',')].intercalate (assignments.map fun assignment =>
    [.word assignment.1, .mark (code '='), operandToken assignment.2])

theorem assignmentTokens_items {assignments : List (List UInt8 × Operand)} (hne : assignments ≠ []) :
    items assignmentItem (assignmentTokens assignments) = some assignments := by
  have hread := @items_written _ _ assignmentItem (fun assignment =>
    [.word assignment.1, .mark (code '='), operandToken assignment.2]) id assignments hne
    (fun assignment _ => ?_) (fun assignment _ => ?_)
  · rwa [List.map_id] at hread
  · obtain ⟨column, operand⟩ := assignment
    cases operand <;> rfl
  · obtain ⟨column, operand⟩ := assignment
    cases operand <;> simp [operandToken] <;> decide

theorem statement_update {text table column : List UInt8} {assignments : List (List UInt8 × Operand)}
    (htokens : tokens text = .word (bytes "UPDATE") :: .word table :: .word (bytes "SET") ::
      (assignmentTokens assignments ++ .word (bytes "WHERE") ::
        [.word column, .mark (code '='), .mark (code '?')]))
    (hne : assignments ≠ []) (hwhere : ∀ assignment ∈ assignments,
      assignment.1 ≠ bytes "WHERE" ∧ assignment.2 ≠ .word (bytes "WHERE")) :
    statement text = some (.update table assignments (.matching column)) := by
  have hstop : Token.word (bytes "WHERE") ∉ assignmentTokens assignments := by
    intro hmem
    rcases mem_intercalate hmem with hsep | ⟨chunk, hchunk, ht⟩
    · cases hsep
    · obtain ⟨⟨name, operand⟩, hassignment, rfl⟩ := List.mem_map.mp hchunk
      obtain ⟨hname, hoperand⟩ := hwhere _ hassignment
      cases operand with
      | parameter =>
        simp only [operandToken, List.mem_cons, Token.word.injEq, reduceCtorEq, List.not_mem_nil,
          or_false] at ht
        exact hname ht.symm
      | word word =>
        simp only [operandToken, List.mem_cons, Token.word.injEq, reduceCtorEq, false_or,
          List.not_mem_nil, or_false] at ht
        rcases ht with ht | ht
        · exact hname ht.symm
        · exact hoperand (by rw [ht])
  rw [statement, htokens]
  dsimp only
  rw [if_neg (by decide), if_neg (by decide), if_pos rfl, update, if_pos rfl, upTo_written hstop]
  dsimp only
  rw [assignmentTokens_items hne, Option.bind_some]
  rfl

theorem statement_delete {text table : List UInt8} {rest : List Token} {rows : Clause}
    (htokens : tokens text = .word (bytes "DELETE") :: .word (bytes "FROM") :: .word table :: rest)
    (hrows : clause rest = some rows) : statement text = some (.delete table rows) := by
  rw [statement, htokens]
  dsimp only
  rw [if_neg (by decide), if_neg (by decide), if_neg (by decide), if_pos rfl, delete, if_pos rfl,
    hrows, Option.map_some]

theorem statement_insertDefault {text table : List UInt8}
    (htokens : tokens text = [.word (bytes "INSERT"), .word (bytes "INTO"), .word table,
      .word (bytes "DEFAULT"), .word (bytes "VALUES")]) :
    statement text = some (.insertDefault table) := by
  rw [statement, htokens]
  dsimp only
  rw [if_neg (by decide), if_pos rfl, insert, if_pos ⟨rfl, rfl, rfl⟩]

theorem parameters_insert (table : List UInt8) (columns : List (List UInt8)) :
    (Statement.insert table columns (List.replicate columns.length .parameter)).parameters =
      columns := by
  rw [Statement.parameters]
  induction columns with
  | nil => rfl
  | cons column columns ih =>
    rw [List.length_cons, List.replicate_succ, List.zip_cons_cons, parameterColumns, ih]

theorem parameterColumns_append (first second : List (List UInt8 × Operand)) :
    parameterColumns (first ++ second) = parameterColumns first ++ parameterColumns second := by
  induction first with
  | nil => rfl
  | cons assignment first ih =>
    obtain ⟨column, operand⟩ := assignment
    cases operand with
    | parameter => rw [List.cons_append, parameterColumns, ih, parameterColumns, List.cons_append]
    | word text => rw [List.cons_append, parameterColumns, ih, parameterColumns]

theorem parameterColumns_parameters (columns : List (List UInt8)) :
    parameterColumns (columns.map fun column => (column, .parameter)) = columns := by
  induction columns with
  | nil => rfl
  | cons column columns ih => rw [List.map_cons, parameterColumns, ih]

end Ceasy.Sql
