import Judge.Tools.Copying
import Judge.Tools.Counting
import Judge.Tools.Files
import Judge.Tools.Following
import Judge.Tools.Listing
import Judge.Tools.Numbers
import Judge.Tools.Processes
import Judge.Tools.Shaping
import Judge.Tools.Sorting

/-!
# Tools/Standard — the tools that every machine has

A table of all tools by name, and the tree of files that holds them.
-/

namespace Judge.Tools

open Shell (Text ofBytes)

/-! ## Tools that tell about the machine -/

def printing (text : String) : Tool := withOptions "" fun r c =>
  match c.rest with
  | [] => r.finish text.toList
  | extra :: _ => r.burdened extra

def id : Tool := withOptions "a Z g,group G,groups n,name r,real u,user z,zero" fun r c =>
  match c.rest.find? fun t => !(["root", "0"].contains (String.ofList t)) with
  | some t => r.fail (quoted t ++ ": no such user")
  | none =>
    let one := c.has "user" || c.has "group" || c.has "groups"
    if one && c.has "name" then r.finish "root\n".toList
    else if one then r.finish "0\n".toList
    else r.finish "uid=0(root) gid=0(root) groups=0(root)\n".toList

def uname : Tool := withOptions
    ("a,all s,kernel-name n,nodename r,kernel-release v,kernel-version m,machine p,processor " ++
     "i,hardware-platform o,operating-system") fun r c =>
  let has (name : String) : Bool := c.has "all" || c.has name
  let parts := (if has "kernel-name" || c.given.isEmpty then ["Linux"] else []) ++
    (if has "nodename" then ["machine"] else []) ++
    (if has "kernel-release" then ["6.0.0"] else []) ++
    (if has "kernel-version" then ["#1"] else []) ++ (if has "machine" then ["x86_64"] else []) ++
    (if has "operating-system" then ["GNU/Linux"] else [])
  r.finish (" ".intercalate parts ++ "\n").toList

def tty : Tool := withOptions "s,silent ,quiet" fun r c =>
  if c.has "silent" || c.has "quiet" then return 1 else r.finish "not a tty\n".toList 1

def sync : Tool := withOptions "d,data f,file-system" fun r c => do
  each c.rest fun t => do
    if ← Program.exists (path t) then return 0 else r.refuse "error opening " t .noEntry

def chown : Tool := withOptions
    ("c,changes f,silent ,quiet h,no-dereference R,recursive v,verbose ,dereference ,from= " ++
     ",reference=") fun r c => do
  match c.rest with
  | [] => r.lacking
  | [one] => r.misused ("missing operand after " ++ quoted one)
  | owner :: files => do
    let known := (splitWhere (fun ch => ch == ':' || ch == '.') owner).all fun w =>
      w.isEmpty || (nat? w).isSome || w == "root".toList
    if !known then
      let what := if r.name == "chgrp" then "invalid group: " else "invalid user: "
      r.fail (what ++ quoted owner)
    else each files fun t => do
      if ← Program.exists (path t) then return 0 else r.refuse "cannot access " t .noEntry

/-! ## The table -/

def table : List (String × Tool) :=
  [("cat", cat), ("tac", tac), ("tee", tee), ("yes", yes), ("head", head), ("tail", tail),
   ("dd", dd), ("truncate", truncate),
   ("tr", tr), ("cut", cut), ("wc", wc), ("od", od), ("sort", sort), ("uniq", uniq), ("seq", seq),
   ("factor", factor), ("expr", expr),
   ("ls", ls), ("stat", stat), ("basename", basename), ("dirname", dirname),
   ("readlink", readlink), ("realpath", realpath), ("pwd", pwd),
   ("mkdir", mkdir), ("rmdir", rmdir), ("rm", rm), ("unlink", unlink), ("cp", cp), ("mv", mv),
   ("ln", ln), ("link", link), ("touch", touch), ("mkfifo", mkfifo), ("mknod", mknod),
   ("mktemp", mktemp), ("chmod", chmod), ("chown", chown), ("chgrp", chown),
   ("sleep", sleep), ("env", env), ("printenv", printenv), ("timeout", timeout), ("nohup", nohup),
   ("nice", nice), ("stdbuf", stdbuf), ("echo", echo), ("printf", builtin "printf"),
   ("test", builtin "test"), ("[", builtin "["), ("kill", builtin "kill"),
   ("true", fun _ => return 0), ("false", fun _ => return 1),
   ("id", id), ("whoami", printing "root\n"), ("groups", printing "root\n"),
   ("uname", uname), ("arch", printing "x86_64\n"), ("nproc", fun r => r.finish "4\n".toList),
   ("tty", tty), ("sync", sync)]

def load? (name : Bytes) (boot : Boot) : Option (Program Nat) :=
  let word := Utf8.text name
  if word = "sh" || word = "dash" then some (Shell.session boot)
  else (table.lookup word).map fun tool =>
    tool { name := Utf8.text (boot.argv.headD name), args := boot.argv.tail.map ofBytes
           env := boot.env }

def names : List String := ["sh", "dash"] ++ table.map (·.1)

/-- The tree with the programs in it, the devices, and the directories that every machine has. -/
def furnish (t : FileTree) : FileTree :=
  let dirs := [["usr"], ["usr", "bin"], ["usr", "local"], ["usr", "local", "bin"], ["dev"],
    ["proc"], ["tmp"], ["root"]]
  let t := dirs.foldl (fun t d => t.put (d.map utf8) .dir) t
  let t := t.put [utf8 "bin"] (.link (.ofString "/usr/bin"))
  let t := [("null", Device.null), ("zero", .zero), ("full", .full)].foldl
    (fun t d => t.put [utf8 "dev", utf8 d.1] (.device d.2)) t
  names.foldl
    (fun t name => t.put [utf8 "usr", utf8 "bin", utf8 name]
      (.file (Machine.mark ++ utf8 name) programMode))
    t

end Judge.Tools
