/-
  What can go wrong, and the wording of each failure.

  Two layers fail for causes of their own.  The store fails because a row is missing,
  breaks a rule of a table or does not decode (`StoreError`).  An evaluation fails
  because its input is wrong or because the data or the cache behind it failed
  (`EvalError`); only in the second case may trying again help (`EvalError.Transient`).
-/

namespace Gunsmith

/-- A failure of the store, by cause. -/
inductive StoreError where
  | notFound (entity id : String)
  | lockFailed (detail : String)
  | transactionFailed (detail : String)
  | queryFailed (detail : String)
  | notUnique (detail : String)
  | danglingReference (detail : String)
  | badTransition (job source target : String)
  | invalid (detail : String)
  | badField (field detail : String)
  | serialization (detail : String)
  | internal (detail : String)
  | other (detail : String)
deriving DecidableEq, Inhabited

namespace StoreError

/-- The wording of a failure of the store. -/
def message : StoreError → String
  | .notFound entity id => s!"记录未找到: {entity} with id={id}"
  | .lockFailed detail => s!"数据库锁获取失败: {detail}"
  | .transactionFailed detail => s!"数据库事务失败: {detail}"
  | .queryFailed detail => s!"数据库查询失败: {detail}"
  | .notUnique detail => s!"唯一约束违反: {detail}"
  | .danglingReference detail => s!"外键约束违反: {detail}"
  | .badTransition job source target => s!"无效的状态转换: job_id={job}, from={source} to={target}"
  | .invalid detail => s!"数据验证失败: {detail}"
  | .badField field detail => s!"字段值错误 (field={field}): {detail}"
  | .serialization detail => s!"序列化失败: {detail}"
  | .internal detail => s!"内部错误: {detail}"
  | .other detail => detail

/-- The list `needle` occurs in `cs`. -/
def occurs (needle : List Char) : List Char → Bool
  | [] => needle.isEmpty
  | c :: cs => needle.isPrefixOf (c :: cs) || occurs needle cs

/-- The cause behind the report of a table rule that was broken: the report names the rule. -/
def ofReport (report : String) : StoreError :=
  if occurs "UNIQUE".toList report.toList then .notUnique report
  else if occurs "FOREIGN KEY".toList report.toList then .danglingReference report
  else .queryFailed report

/-- The cause when a question that needs an answer has none. -/
def noRows : StoreError := .notFound "Unknown" "Unknown"

/-- A statement names a table that does not exist. -/
def missingTable (table : String) : StoreError := .queryFailed s!"no such table: {table}"

/-- A row refers to a row that does not exist. -/
def brokenReference : StoreError := .ofReport "FOREIGN KEY constraint failed"

/-- A row repeats the key of another. -/
def repeatedKey (column : String) : StoreError := .ofReport s!"UNIQUE constraint failed: {column}"

/-- The text in a column does not decode. -/
def unreadableColumn (column : Nat) (detail : String) : StoreError :=
  .queryFailed s!"Conversion error from type Text at index: {column}, {detail}"

/-- The number in a column is outside the range of its type. -/
def outOfRange (column : Nat) (value : Int) : StoreError :=
  .queryFailed s!"Integer {value} out of range at index {column}"

end StoreError

/-- A failure of an evaluation, by cause. -/
inductive EvalError where
  | notFound (entity id : String)
  | invalidConfiguration (detail : String)
  /-- Reading the data about an item failed while the candidates were being collected. -/
  | construction (itemId : String) (cause : StoreError)
  /-- The cache of isolated solutions failed. -/
  | cache (cause : StoreError)
deriving DecidableEq, Inhabited

namespace EvalError

/-- The wording of a failure of an evaluation. -/
def message : EvalError → String
  | .notFound entity id => s!"记录未找到: {entity} with id={id}"
  | .invalidConfiguration detail => s!"配置错误: {detail}"
  | .construction itemId cause =>
    let reason := cause.message
    s!"候选树构建失败 (item_id={itemId}): {reason}"
  | .cache cause =>
    let reason := cause.message
    s!"缓存访问失败: {reason}"

/-- What a failed read about an item means for the evaluation: a missing record is the answer
itself, anything else is a failure of the data behind it. -/
def ofRead (itemId : String) : StoreError → EvalError
  | .notFound entity id => .notFound entity id
  | cause => .construction itemId cause

/-- The same request may succeed later. -/
def Transient : EvalError → Prop
  | .notFound .. => False
  | .invalidConfiguration .. => False
  | .construction .. => True
  | .cache .. => True

instance (e : EvalError) : Decidable e.Transient :=
  match e with
  | .notFound .. => .isFalse id
  | .invalidConfiguration .. => .isFalse id
  | .construction .. => .isTrue trivial
  | .cache .. => .isTrue trivial

end EvalError

end Gunsmith
