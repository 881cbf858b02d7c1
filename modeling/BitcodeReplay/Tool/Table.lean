import BitcodeReplay.Tool.Awk.Run
import BitcodeReplay.Tool.Blocks
import BitcodeReplay.Tool.Columns
import BitcodeReplay.Tool.Compare
import BitcodeReplay.Tool.Copying
import BitcodeReplay.Tool.Counting
import BitcodeReplay.Tool.Diff.Run
import BitcodeReplay.Tool.Digest
import BitcodeReplay.Tool.Directory
import BitcodeReplay.Tool.Dump
import BitcodeReplay.Tool.Encoding
import BitcodeReplay.Tool.Expr
import BitcodeReplay.Tool.Find
import BitcodeReplay.Tool.Grep
import BitcodeReplay.Tool.Identity
import BitcodeReplay.Tool.Transfer
import BitcodeReplay.Tool.Making
import BitcodeReplay.Tool.Modes
import BitcodeReplay.Tool.Ordering
import BitcodeReplay.Tool.Pairing
import BitcodeReplay.Tool.Paths
import BitcodeReplay.Tool.Plain
import BitcodeReplay.Tool.Removing
import BitcodeReplay.Tool.Sed.Run
import BitcodeReplay.Tool.Splitting
import BitcodeReplay.Tool.Starting
import BitcodeReplay.Tool.Status

/-!
The tools by their names.
-/

namespace BitcodeReplay.Tool

open Shell

/-- The tool of a name, given how it starts others. -/
def named? (start : Starter) (name : String) : Option (List Octets → Act Unit) :=
  match name with
  | "[" => some bracket
  | "arch" => some arch
  | "awk" => some (Awk.run start)
  | "base32" => some base32
  | "base64" => some base64
  | "basename" => some basename
  | "cat" => some cat
  | "chmod" => some chmod
  | "cksum" => some cksum
  | "cmp" => some cmp
  | "comm" => some comm
  | "cp" => some cp
  | "cut" => some cut
  | "date" => some date
  | "dd" => some dd
  | "diff" => some diff
  | "dir" => some ls
  | "dirname" => some dirname
  | "echo" => some echo
  | "egrep" => some (Grep.run 'E')
  | "env" => some (env start)
  | "expand" => some expand
  | "expr" => some expr
  | "factor" => some factor
  | "false" => some (answer 1)
  | "fgrep" => some (Grep.run 'F')
  | "find" => some (Find.run start)
  | "fold" => some fold
  | "grep" => some (Grep.run 'G')
  | "groups" => some groups
  | "head" => some head
  | "hostname" => some hostname
  | "id" => some identify
  | "install" => some install
  | "join" => some join
  | "link" => some link
  | "ln" => some ln
  | "ls" => some ls
  | "mawk" => some (Awk.run start)
  | "md5sum" => some md5sum
  | "mkdir" => some mkdir
  | "mkfifo" => some mkfifo
  | "mknod" => some mknod
  | "mktemp" => some mktemp
  | "mv" => some mv
  | "nice" => some (nice start)
  | "nl" => some nl
  | "nohup" => some (nohup start)
  | "nproc" => some nproc
  | "od" => some od
  | "paste" => some paste
  | "printenv" => some printenv
  | "printf" => some printf
  | "pwd" => some pwd
  | "readlink" => some readlink
  | "realpath" => some realpath
  | "rev" => some rev
  | "rm" => some rm
  | "rmdir" => some rmdir
  | "sed" => some (sed start)
  | "seq" => some seq
  | "sha1sum" => some sha1sum
  | "sha224sum" => some sha224sum
  | "sha256sum" => some sha256sum
  | "sha384sum" => some sha384sum
  | "sha512sum" => some sha512sum
  | "shuf" => some shuf
  | "sleep" => some sleep
  | "sort" => some sort
  | "split" => some split
  | "stat" => some stat
  | "sum" => some sum
  | "tac" => some tac
  | "tail" => some tail
  | "tee" => some tee
  | "test" => some decideWords
  | "timeout" => some (timeout start)
  | "touch" => some touch
  | "tr" => some tr
  | "true" => some (answer 0)
  | "truncate" => some truncate
  | "tsort" => some tsort
  | "tty" => some tty
  | "uname" => some uname
  | "unexpand" => some unexpand
  | "uniq" => some uniq
  | "unlink" => some unlink
  | "wc" => some wc
  | "which" => some which
  | "whoami" => some whoami
  | "xargs" => some (xargs start)
  | "yes" => some yes
  | "sync" => some (answer 0)
  | _ => none

end BitcodeReplay.Tool
