import BitcodeReplay.FileTree.Edit

/-!
The system on which programs run: its directories, its devices, and the files of its programs, as a
tree.
-/

namespace BitcodeReplay.Host

/-- The directories of the system, each after those above it. -/
def directories : List String :=
  ["/boot", "/dev", "/dev/mqueue", "/dev/pts", "/dev/shm", "/etc", "/etc/alternatives", "/etc/apt",
    "/etc/cron.d", "/etc/cron.daily", "/etc/default", "/etc/init.d", "/etc/ld.so.conf.d",
    "/etc/opt", "/etc/pam.d", "/etc/profile.d", "/etc/security", "/etc/skel", "/etc/ssl",
    "/etc/systemd", "/home", "/media", "/mnt", "/opt", "/proc", "/proc/1", "/proc/1/fd",
    "/proc/sys", "/root", "/run", "/run/lock", "/srv", "/sys", "/sys/class", "/sys/devices",
    "/sys/fs", "/sys/kernel", "/tmp", "/usr", "/usr/bin", "/usr/games", "/usr/include", "/usr/lib",
    "/usr/lib64", "/usr/libexec", "/usr/local", "/usr/local/bin", "/usr/local/etc",
    "/usr/local/games", "/usr/local/include", "/usr/local/lib", "/usr/local/sbin",
    "/usr/local/share", "/usr/local/share/man", "/usr/local/src", "/usr/sbin", "/usr/share",
    "/usr/share/doc", "/usr/share/man", "/usr/share/zoneinfo", "/usr/share/zoneinfo/Etc",
    "/usr/src", "/var", "/var/backups", "/var/cache", "/var/lib", "/var/lib/dpkg", "/var/local",
    "/var/log", "/var/mail", "/var/opt", "/var/spool", "/var/tmp"]

/-- The links of the system, each with its target. -/
def links : List (String × String) :=
  [("/bin", "usr/bin"), ("/lib", "usr/lib"), ("/lib64", "usr/lib64"), ("/sbin", "usr/sbin"),
    ("/dev/fd", "/proc/self/fd"), ("/dev/stdin", "/proc/self/fd/0"),
    ("/dev/stdout", "/proc/self/fd/1"), ("/dev/stderr", "/proc/self/fd/2"),
    ("/dev/core", "/proc/kcore"), ("/dev/ptmx", "pts/ptmx"), ("/proc/self", "1"),
    ("/proc/mounts", "self/mounts"), ("/etc/alternatives/awk", "/usr/bin/mawk"),
    ("/etc/localtime", "/usr/share/zoneinfo/Etc/UTC"), ("/etc/os-release", "../usr/lib/os-release"),
    ("/usr/bin/awk", "/etc/alternatives/awk"), ("/usr/bin/sh", "dash"),
    ("/usr/local/man", "share/man"), ("/var/lock", "/run/lock"), ("/var/run", "/run")]

def specials : List (String × Special) :=
  [("/dev/full", .full), ("/dev/null", .null), ("/dev/pts/ptmx", .terminal),
    ("/dev/random", .random), ("/dev/tty", .terminal), ("/dev/urandom", .random),
    ("/dev/zero", .zero), ("/proc/1/fd/0", .null), ("/proc/1/fd/1", .pipe),
    ("/proc/1/fd/2", .pipe)]

/-- The users of the system, each on a line of its own. -/
def users : List String :=
  ["root:x:0:0:root:/root:/bin/bash", "daemon:x:1:1:daemon:/usr/sbin:/usr/sbin/nologin",
    "bin:x:2:2:bin:/bin:/usr/sbin/nologin", "sys:x:3:3:sys:/dev:/usr/sbin/nologin",
    "sync:x:4:65534:sync:/bin:/bin/sync", "games:x:5:60:games:/usr/games:/usr/sbin/nologin",
    "man:x:6:12:man:/var/cache/man:/usr/sbin/nologin",
    "lp:x:7:7:lp:/var/spool/lpd:/usr/sbin/nologin",
    "mail:x:8:8:mail:/var/mail:/usr/sbin/nologin",
    "news:x:9:9:news:/var/spool/news:/usr/sbin/nologin",
    "uucp:x:10:10:uucp:/var/spool/uucp:/usr/sbin/nologin",
    "proxy:x:13:13:proxy:/bin:/usr/sbin/nologin",
    "www-data:x:33:33:www-data:/var/www:/usr/sbin/nologin",
    "backup:x:34:34:backup:/var/backups:/usr/sbin/nologin",
    "list:x:38:38:Mailing List Manager:/var/list:/usr/sbin/nologin",
    "irc:x:39:39:ircd:/run/ircd:/usr/sbin/nologin",
    "_apt:x:42:65534::/nonexistent:/usr/sbin/nologin",
    "nobody:x:65534:65534:nobody:/nonexistent:/usr/sbin/nologin"]

/-- The files of the system that are no programs, with what they hold. -/
def files : List (String × String) :=
  [("/etc/bash.bashrc", ""), ("/etc/environment", ""), ("/etc/fstab", ""), ("/etc/group", ""),
    ("/etc/host.conf", "multi on\n"), ("/etc/hosts", "127.0.0.1\tlocalhost\n"),
    ("/etc/ld.so.cache", ""), ("/etc/ld.so.conf", "include /etc/ld.so.conf.d/*.conf\n"),
    ("/etc/passwd", String.join (users.map (· ++ "\n"))), ("/etc/profile", ""),
    ("/etc/resolv.conf", ""), ("/etc/shells", ""), ("/etc/timezone", "Etc/UTC\n"),
    ("/proc/1/cmdline", ""), ("/proc/1/environ", ""), ("/proc/1/mounts", ""),
    ("/proc/1/stat", ""), ("/proc/1/status", ""), ("/proc/cpuinfo", ""), ("/proc/kcore", ""),
    ("/proc/loadavg", ""), ("/proc/meminfo", ""), ("/proc/stat", ""), ("/proc/uptime", ""),
    ("/proc/version", ""), ("/usr/lib/os-release", ""), ("/usr/share/zoneinfo/Etc/UTC", "")]

/-- The programs of the system. -/
def programs : List String :=
  ["[", "arch", "base32", "base64", "basename", "cat", "chmod", "cksum", "cmp", "comm", "cp",
    "cut", "dash", "date", "dd", "diff", "dir", "dirname", "echo", "egrep", "env", "expand",
    "expr", "factor", "false", "fgrep", "find", "fold", "grep", "groups", "head", "hostname",
    "id", "install", "join", "link", "ln", "ls", "mawk", "md5sum", "mkdir", "mkfifo", "mknod",
    "mktemp", "mv", "nice", "nl", "nohup", "nproc", "od", "paste", "printenv", "printf", "pwd",
    "readlink", "realpath", "rev", "rm", "rmdir", "sed", "seq", "sha1sum", "sha224sum",
    "sha256sum", "sha384sum", "sha512sum", "shuf", "sleep", "sort", "split", "stat", "sum",
    "sync", "tac", "tail", "tee", "test", "timeout", "touch", "tr", "true", "truncate", "tsort",
    "tty", "uname", "unexpand", "uniq", "unlink", "wc", "which", "whoami", "xargs", "yes"]

/-- The bytes in front of the name of a program in its file. -/
def mark : ByteArray := ⟨#[0x7f, 0x45, 0x4c, 0x46, 2, 1, 1, 0]⟩

/-- The file of a program. -/
def image (program : String) : Entry := .file (mark ++ program.toUTF8) true

/-- The program that a file holds, if it is one of the system. -/
def program? (bytes : ByteArray) : Option String :=
  if bytes.extract 0 mark.size = mark then String.fromUTF8? (bytes.extract mark.size bytes.size)
  else none

/-- What stands in the system, by its path. -/
def entries : List (String × Entry) :=
  directories.map (fun path => (path, .dir)) ++
    links.map (fun p => (p.1, .link p.2)) ++
    specials.map (fun p => (p.1, .special p.2)) ++
    files.map (fun p => (p.1, .file p.2.toUTF8 false)) ++
    programs.map (fun name => ("/usr/bin/" ++ name, image name))

/-- A tree with all of the system that it does not have yet. -/
def mount (t : FileTree) : FileTree :=
  entries.foldl
    (fun t p => let loc := Path.names p.1; if (t.get? loc).isNone then t.put loc p.2 else t) t

end BitcodeReplay.Host
