import Distsys.Tinyweb.BodyStart
import Distsys.Tinyweb.Confinement

/-! Scripts: when the text of a file below `/cgi-bin` gets out as the body of an answer. -/

namespace Distsys.Tinyweb

section Scripts
variable {env : Env} {buffer : Buffer} {q : ParsedHeader} {file : Bytes} {st : Inode} {rest : List Bytes}

end Scripts

/-- An executable script. -/
def script : Inode where
  kind := .regular
  mode := 0o755
  mtime := .epoch
  readable := true
  data := str "echo ok"
  size := 7
  size_lt := Nat.le_of_ble_eq_true rfl
  size_eq := fun _ => rfl
  other_size := nofun

end Distsys.Tinyweb
