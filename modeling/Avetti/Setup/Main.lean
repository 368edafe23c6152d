import Avetti.Setup.Compile

/-!
# setup.sh

The whole of `setup.sh`: its parameters, the requirements, the system configuration, the checkout
of the code, the configuration files, and the compilation.

## Main definitions

* `checkout`: the checkout of the code and of the LGPL software, and the credentials in `pom.xml`
* `settingsEdits`, `configureSettings`: `settings.xml`
* `contextEdits`, `configureContexts`: `preview.xml` and `ROOT.xml`
* `requirements`, `install`, `finish`: the parts of the script around `compileCommerce`
* `setup`: the script
-/

open Script

namespace Avetti

section Main

variable (glob : Text → List Text) (v : Vars)

/-! ## The code -/

/-- `su - avetti -c "svn checkout ..."` with the options for the credentials and the address. -/
def svnCheckout (options url : Text) : List Text :=
  ["su".toList, "-".toList, "avetti".toList, "-c".toList,
    "cd /avetti/svn; svn checkout --config-dir /home/avetti/.subversion --no-auth-cache ".toList ++
      "--non-interactive --trust-server-cert ".toList ++ options ++ " ".toList ++ url]

/-- The options for the credentials that were typed. -/
def svnOptions : Text :=
  "--username=".toList ++ v.avettisvnuser ++ " --password=".toList ++ v.avettisvnpassword

/-- The options for the public credentials of the LGPL software. -/
def lgplOptions : Text := "--username avetti-lgpl-access --password avetti-lgpl-access"

/-- The address of the LGPL software. -/
def lgplRepository : Text := "https://svn.avetticommerce.com/software/LGPL-software"

/-- The checkout of the code, unless its directory exists. The status that is tested is that of the
`tee` after the second checkout. -/
def checkout : Sh Unit := do
  if ¬ (← fileTest "-d" (codeDir v.code_to_install)) then
    let _ ← teed (svnCheckout (svnOptions v) (repository v.path_to_code))
    let status ← teed (svnCheckout lgplOptions lgplRepository)
    if ¬ (← failed .svnCheckout status) then
      edits (insertCredentials v.avettisvnuser v.avettisvnpassword) (pomFile v.code_to_install)

/-! ## Configuration files -/

/-- `settings.xml` of the user `avetti`. -/
def settingsFile : Text := "/home/avetti/.m2/settings.xml"

/-- The edits of `settings.xml` before its line ends are converted. -/
def settingsEdits : List Text :=
  [substituteAll "C:\\/" "\\/", substituteAll "mysql.password" v.mysqlAvettiPwd,
    substituteAll "c8prod1.yourdomain.com" v.appHostName]

/-- The edit of `settings.xml` for a MySQL server that is not installed here. -/
def dbHostEdits : List Text :=
  if v.nomysql then
    if v.mysqlPort = "3306".toList then
      [substituteAll "<db.host>localhost" ("<db.host>".toList ++ v.mysqlHost)]
    else
      [substituteAll "<db.host>localhost"
        ("<db.host>".toList ++ v.mysqlHost ++ ":".toList ++ v.mysqlPort)]
  else []

/-- `settings.xml`, unless it exists. -/
def configureSettings : Sh Unit := do
  if ¬ (← fileTest "-e" settingsFile) then
    let _ ← run ["cp", "/avetti/svn/settings-original.xml", settingsFile]
    edits (settingsEdits v) settingsFile
    let _ ← run ["dos2unix", settingsFile]
    edits (dbHostEdits v) settingsFile

/-- The files of the database connections. -/
def contextFile (name : Text) : Text :=
  "/avetti/tomcat/conf/Catalina/localhost/".toList ++ name

/-- The edits of `preview.xml` and `ROOT.xml`, in order. -/
def contextEdits : List Text :=
  substituteAll "mysql.password" v.mysqlAvettiPwd ::
    (if v.nomysql then
      substituteAll "localhost" v.mysqlHost ::
        (if v.mysqlPort ≠ "3306".toList then [substituteAll "3306" v.mysqlPort] else [])
    else [])

/-- The edits of `preview.xml` and `ROOT.xml`, each edit made in the first and then in the second
file. -/
def editContexts : List Text → Sh Unit
  | [] => pure ()
  | script :: scripts => do
    let _ ← run (sed script (contextFile "preview.xml"))
    let _ ← run (sed script (contextFile "ROOT.xml"))
    editContexts scripts

/-- The database connections of the web applications. -/
def configureContexts : Sh Unit := do
  editContexts (contextEdits v)
  let _ ← run ["cp", contextFile "preview.xml",
    "/avetti/tomcat/webapps/preview/META-INF/context.xml"]
  let _ ← run ["cp", contextFile "ROOT.xml", "/avetti/tomcat/webapps/ROOT/META-INF/context.xml"]

/-- The lines of `/etc/profile` for the members of the group `apache`. -/
def umaskLines : Text := "if [ \"\x60id -gn\x60\" = \"apache\" ];\nthen umask 002\nfi\n"

/-- `/etc/profile` is extended unless it has the word. -/
def extendProfile (word lines : Text) : Sh Unit := do
  if (← capture ["grep", word, "/etc/profile"]) = [] then
    appendTo lines "/etc/profile"

/-- The lines of `/etc/profile` for Maven. -/
def mavenLines : Text :=
  "export MAVEN_OPTS=\"-Xms512m -Xmx700m -XX:PermSize=256M -XX:MaxPermSize=700M\"\n".toList ++
  "export M2_HOME=/avetti/mvn\nexport M2=$M2_HOME/bin\nexport PATH=$M2:$PATH\n".toList

/-- The line of the crontab for the log of Tomcat. -/
def cronLine : Text :=
  "* * * * 0\t/usr/sbin/logrotate /etc/logrotate.conf ".toList ++
    ">>/avetti/tomcat/logs/catalina-cron.log 2>&1\n".toList

/-- The rotation of the log of Tomcat. -/
def logrotate : Text :=
  "/avetti/tomcat/logs/catalina.out \x7b\ncopytruncate\nrotate 6\ncompress\nmissingok\nsize 200M\n\x7d\n"

/-- The crontab, unless it has the line. -/
def configureCrontab : Sh Unit := do
  let jobs ← command (.run ["crontab", "-l"])
  if Text.grep (Text.Occurs "catalina-cron") jobs.out = [] then
    writeTo logrotate "/etc/logrotate.d/tomcat"
    let jobs ← command (.run ["crontab", "-l"])
    writeTo jobs.out "cron.tmp"
    appendTo cronLine "cron.tmp"
    let _ ← run ["crontab", "cron.tmp"]
    let _ ← run ["rm", "-f", "cron.tmp"]

/-- `configureSolr46`. -/
def configureSolr46 (coreDir : Text) : Sh Unit := do
  let solr := codeDir coreDir ++ "/src/site/resources/solr".toList
  let _ ← run ["cp", solr, "/avetti/solr46/preview-solr"]
  let _ ← run ["cp", solr, "/avetti/solr46/shop-solr"]

/-! ## The script -/

/-- The part before anything is changed. -/
def requirements : Sh Vars := do
  checkSvn
  checkMysql v
  checkJava v
  checkNetcat
  let v ← mysqlServer glob v
  let v ← webServer v
  codeVersion glob v

/-- The packages; its value is `JAVA_HOME`. -/
def installPackages : Sh Text := do
  ifThen (v.nomysql = false) installMysql
  let JAVA_HOME ← (if v.nojava = false then installJava v else pure v.JAVA_HOME)
  ifThen (v.nohttpd = false) installHttpd
  return JAVA_HOME

/-- The part from the requirements to the compilation. -/
def install : Sh Unit := do
  installRequirements
  createUsers
  setHostname v
  setHosts v
  let _ ← run (sed (substituteAll "C:\\/" "\\/") (contextFile "solr-*.xml"))
  setSudoers
  ifThen (← hasApt) linkInsserv
  let JAVA_HOME ← installPackages v
  let v := { v with JAVA_HOME := JAVA_HOME }
  configureMysql glob v
  configureHttpd v
  configureTomcat v
  updateChkconfig
  extendProfile "apache" umaskLines
  checkout v
  configureSettings v
  extendProfile "MAVEN_OPTS" mavenLines

/-- The part after the compilation. -/
def finish (coreDir : Text) : Sh Unit := do
  configureSolr46 coreDir
  configureCrontab
  configureContexts v
  if ¬ (← fileTest "-e" "/avetti/tomcat/webapps/preview/WEB-INF/classes") then leave 1

end Main

/-- `setup.sh`. -/
def setup (glob : Text → List Text) (JAVA_HOME : Text) (args : List Text) : Sh Unit := do
  let uid ← capture ["id", "-u"]
  ifThen (uid ≠ "0".toList) (leave 1)
  let p ← parameters glob args
  let v ← requirements glob (.ofParams p JAVA_HOME)
  install glob v
  let coreDir ← compileCommerce glob v
  finish v coreDir

end Avetti
