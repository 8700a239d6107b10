import FirstRow.Text.Octet

/-!
# Functions

The functions that are known, with the numbers of arguments that they take. A function of which nothing is known can be
called in a schema all the same, since nothing calls it when rows are read.
-/
namespace FirstRow.Sql

/-- What a function computes from. -/
inductive FunctionKind where
  /-- From the arguments. -/
  | scalar
  /-- From the arguments, but not always the same. -/
  | changing
  /-- From several rows, also from those of a window. -/
  | aggregate
  /-- From the rows of a window only. -/
  | window
  /-- It cannot be called by its name. -/
  | hidden
deriving DecidableEq

/-- A function. -/
structure Function where
  name : String
  /-- The least number of arguments. -/
  least : Nat
  /-- The greatest number of arguments, if there is one. -/
  most : Option Nat
  kind : FunctionKind

namespace Function

/-- Functions of a kind that take from `least` to `most` arguments. -/
def family (kind : FunctionKind) (least : Nat) (most : Option Nat) (names : List String) : List Function :=
  names.map fun name => ⟨name, least, most, kind⟩

/-- The functions that are known. Of several of one name the first one stands for all. -/
def known : List Function :=
  family .scalar 0 (some 0) ["fts5_source_id"] ++
  family .scalar 0 none ["printf", "format", "char", "julianday", "unixepoch", "date", "time", "datetime", "strftime",
    "json_array", "json_extract", "json_insert", "json_object", "json_remove", "json_replace", "json_set"] ++
  family .scalar 1 none ["concat"] ++
  family .scalar 2 none ["min", "max", "concat_ws", "coalesce"] ++
  family .scalar 1 (some 1) ["soundex", "unlikely", "likely", "typeof", "subtype", "length", "octet_length", "unicode",
    "abs", "upper", "lower", "hex", "quote", "zeroblob", "sign", "json", "json_error_position", "json_quote",
    "json_valid"] ++
  family .scalar 1 (some 2) ["ltrim", "rtrim", "trim", "round", "unhex", "json_array_length", "json_type"] ++
  family .scalar 2 (some 2) ["likelihood", "instr", "ifnull", "nullif", "sqlite_log", "glob", "timediff", "json_patch",
    "->", "->>"] ++
  family .scalar 2 (some 3) ["substr", "substring", "like"] ++
  family .scalar 3 (some 3) ["replace", "iif"] ++
  family .changing 0 (some 0) ["random", "sqlite_version", "sqlite_source_id", "last_insert_rowid", "changes",
    "total_changes", "current_time", "current_date", "current_timestamp"] ++
  family .changing 0 none ["snippet", "rtreecheck"] ++
  family .changing 1 (some 1) ["sqlite_compileoption_used", "sqlite_compileoption_get", "randomblob", "offsets",
    "optimize", "fts5", "rtreedepth"] ++
  family .changing 1 (some 2) ["load_extension", "matchinfo", "fts3_tokenizer"] ++
  family .changing 2 (some 2) ["match", "rtreenode"] ++
  family .aggregate 0 (some 1) ["count"] ++
  family .aggregate 1 (some 1) ["min", "max", "sum", "total", "avg", "json_group_array"] ++
  family .aggregate 1 (some 2) ["group_concat"] ++
  family .aggregate 2 (some 2) ["string_agg", "json_group_object"] ++
  family .window 0 (some 0) ["row_number", "dense_rank", "rank", "percent_rank", "cume_dist"] ++
  family .window 1 (some 1) ["ntile", "last_value", "first_value"] ++
  family .window 1 (some 3) ["lead", "lag"] ++
  family .window 2 (some 2) ["nth_value"] ++
  family .hidden 1 (some 1) ["affinity"] ++
  family .hidden 2 (some 2) ["implies_nonnull_row", "expr_compare", "expr_implies_expr", "sqlite_rename_quotefix"] ++
  family .hidden 3 (some 3) ["sqlite_drop_column"] ++
  family .hidden 7 (some 7) ["sqlite_rename_table", "sqlite_rename_test"] ++
  family .hidden 9 (some 9) ["sqlite_rename_column"]

/-- Whether a function takes a number of arguments. -/
def takes (f : Function) (n : Nat) : Bool :=
  f.least ≤ n && f.most.all (n ≤ ·)

/-- Whether a function can range over the rows of a window. -/
def hasWindow (f : Function) : Bool :=
  f.kind = .aggregate || f.kind = .window

/-- The functions of a name. -/
def named (name : List UInt8) : List Function :=
  known.filter fun f => Text.Octet.spells f.name name

end Function
end FirstRow.Sql
