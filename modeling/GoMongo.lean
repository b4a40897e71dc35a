import GoMongo.Go
import GoMongo.Auth.OIDCAuthenticator
import GoMongo.Auth.OIDCCalls
import GoMongo.Auth.OIDCInterleaving
import GoMongo.Auth.OIDCFencing
import GoMongo.Auth.OIDCAcquisition
import GoMongo.Auth.AzureCallback
import GoMongo.Auth.SaslClients
import GoMongo.Bson.Core
import GoMongo.Mongo.IndexView
import GoMongo.Mongo.IndexNames
import GoMongo.Mongo.IndexEncoding
