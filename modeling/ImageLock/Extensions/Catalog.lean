/-
The extensions of the language runtime: those that belong to it, and what
others need from the system.
-/
namespace ImageLock.Extensions

/-- Extensions in the source of the runtime. -/
def core : List String :=
  [
    "bcmath", "bz2", "calendar", "ctype", "curl", "dba", "dom", "enchant", "exif", "ffi",
    "fileinfo", "filter", "ftp", "gd", "gd.freetype", "gd.jpeg", "gd.webp", "gettext", "gmp",
    "hash", "iconv", "imap", "intl", "json", "ldap", "mbstring", "mysqli", "oci8", "odbc",
    "opcache", "pcntl", "pdo", "pdo_dblib", "pdo_firebird", "pdo_mysql", "pdo_oci", "pdo_odbc",
    "pdo_pgsql", "pdo_sqlite", "pgsql", "phar", "posix", "pspell", "readline", "reflection",
    "session", "shmop", "simplexml", "snmp", "soap", "sockets", "sodium", "spl", "standard",
    "sysvmsg", "sysvsem", "sysvshm", "tidy", "tokenizer", "xml", "xmlreader", "xmlrpc",
    "xmlwriter", "xsl", "zip"
  ]

/-- Extensions that every image has. -/
def preinstalled : List String :=
  ["filter", "json", "reflection", "session", "spl", "standard"]

/-- The packages that an extension needs, on Debian and on Alpine. -/
def packages : List (String × List String × List String) :=
  [
    ("bz2", ["libbz2-dev"], ["bzip2-dev"]),
    ("curl", ["libcurl4-openssl-dev"], ["curl-dev"]),
    ("dom", ["libxml2-dev"], ["libxml2-dev"]),
    ("enchant", ["libenchant-dev"], ["enchant-dev"]),
    ("ffi", ["libffi-dev"], ["libffi-dev"]),
    ("ftp", ["libssl-dev"], ["openssl-dev"]),
    ("gd", ["libpng-dev"], ["libpng-dev", "zlib-dev"]),
    ("gd.freetype", ["libfreetype6-dev"], ["freetype-dev"]),
    ("gd.jpeg", ["libjpeg-dev"], ["libjpeg-turbo-dev"]),
    ("gd.webp", ["libwebp-dev"], ["libwebp-dev"]),
    ("gmp", ["libgmp-dev"], ["gmp-dev"]),
    ("imap", ["libc-client-dev", "libkrb5-dev"], ["imap-dev"]),
    ("intl", ["libicu-dev"], ["icu-dev"]),
    ("ldap", ["libldap2-dev"], ["openldap-dev"]),
    ("pdo_pgsql", ["libpq-dev"], ["postgresql-dev"]),
    ("pdo_sqlite", ["libsqlite3-dev"], ["sqlite-dev"]),
    ("pgsql", ["libpq-dev"], ["postgresql-dev"]),
    ("phar", ["libssl-dev"], ["openssl-dev"]),
    ("pspell", ["libpspell-dev"], ["aspell-dev"]),
    ("readline", ["libedit-dev"], ["libedit-dev"]),
    ("simplexml", ["libxml2-dev"], ["libxml2-dev"]),
    ("snmp", ["libsnmp-dev"], ["net-snmp-dev"]),
    ("soap", ["libxml2-dev"], ["libxml2-dev"]),
    ("sockets", ["libssl-dev", "openssl"], ["openssl-dev"]),
    ("sodium", ["libsodium-dev"], ["libsodium-dev"]),
    ("tidy", ["libtidy-dev"], ["tidyhtml-dev"]),
    ("xml", ["libxml2-dev"], ["libxml2-dev"]),
    ("xmlreader", ["libxml2-dev"], ["libxml2-dev"]),
    ("xmlrpc", ["libxml2-dev"], ["libxml2-dev"]),
    ("xmlwriter", ["libxml2-dev"], ["libxml2-dev"]),
    ("xsl", ["libxslt1-dev"], ["libxslt-dev"]),
    ("zip", ["libzip-dev", "zlib1g-dev"], ["libzip-dev"]),
    ("amqp", ["librabbitmq-dev"], ["rabbitmq-c-dev"]),
    ("couchbase", [], ["libcouchbase-dev"]),
    ("imagick", ["libmagick++-6.q16-dev"], ["imagemagick6-dev"]),
    ("memcache", ["zlib1g-dev"], ["zlib-dev"]),
    ("memcached", ["libmemcached-dev", "zlib1g-dev"], ["libmemcached-dev", "zlib-dev"]),
    ("rdkafka", ["librdkafka-dev"], ["librdkafka-dev"]),
    ("zookeeper", ["libzookeeper-mt-dev"], [])
  ]

/-- The directory of the extensions, for each version. -/
def directories : List (String × String) :=
  [
    ("7.2", "/usr/local/lib/php/extensions/no-debug-non-zts-20170718"),
    ("7.3", "/usr/local/lib/php/extensions/no-debug-non-zts-20180731"),
    ("7.4", "/usr/local/lib/php/extensions/no-debug-non-zts-20190902")
  ]

def isCore (name : String) : Bool := core.contains name

def isPreinstalled (name : String) : Bool := preinstalled.contains name

/-- The packages for a family of systems; all but one are like Debian. -/
def packagesOf (extension family : String) : List String :=
  match packages.lookup extension with
  | some (debian, alpine) => if family = "alpine" then alpine else debian
  | none => []

def directory? (version : String) : Option String := directories.lookup version

end ImageLock.Extensions
